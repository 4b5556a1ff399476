import BootTrust.Proofs.Path.Joining
import Mathlib.Logic.Relation
/-
Paths that differ in their spelling only. A separator may be repeated, there may be a dot between
two separators, and a path that is not empty may have a separator behind it: none of this changes
the components, and two paths with the same components can be brought into each other by it
(`components_eq_iff`). The second half goes through the one spelling without any of it (`spelled`),
which is found by working off the parts from the front.

A dot in front is not among the ways to respell a path. It is a component of its own, unless there
is one already (`components_dot_iff`).
-/

set_option autoImplicit false

namespace BootTrust

theorem Component.isIdle_iff {part : List Char} :
    isIdle part = true ↔ part = [] ∨ part = ['.'] := by
  rw [isIdle, Bool.or_eq_true, decide_eq_true_iff, decide_eq_true_iff]

namespace Path

/-- That a path is another one with something written into it that makes no component. -/
inductive Respelled : Path → Path → Prop
  | repeated (front back : String) : Respelled ⟨front ++ "//" ++ back⟩ ⟨front ++ "/" ++ back⟩
  | dot (front back : String) : Respelled ⟨front ++ "/./" ++ back⟩ ⟨front ++ "/" ++ back⟩
  | trailing (front : String) (there : front ≠ "") : Respelled ⟨front ++ "/"⟩ ⟨front⟩

/-! ## Components of a path that is respelled -/

theorem parts_eq {p : Path} (front back : List Char) (h : p.text.toList = front ++ '/' :: back) :
    p.parts = Text.parts isSlash front ++ Text.parts isSlash back := by
  rw [parts, h, Text.parts_append_separator rfl]

/-- The front is decided by the first part and by whether there is another, so a part behind the
first one can be left out if there is one behind it too. -/
theorem front?_between {init rest : List (List Char)} (hinit : init ≠ []) (hrest : rest ≠ [])
    (part : List Char) : front? (init ++ part :: rest) = front? (init ++ rest) := by
  rcases init with _ | ⟨first, _ | ⟨second, more⟩⟩
  · exact absurd rfl hinit
  · obtain ⟨next, rest, rfl⟩ := List.exists_cons_of_ne_nil hrest
    rw [List.singleton_append, List.singleton_append, front?_cons_cons, front?_cons_cons]
  · simp only [List.cons_append, front?_cons_cons]

/-- An idle part between two separators makes no difference. -/
theorem components_of_idle {p q : Path} (front back : List Char) {part : List Char}
    (hidle : Component.isIdle part = true)
    (hp : p.text.toList = front ++ '/' :: (part ++ '/' :: back))
    (hq : q.text.toList = front ++ '/' :: back) : p.components = q.components := by
  have hsingle : Text.parts isSlash part = [part] := by
    rcases Component.isIdle_iff.mp hidle with rfl | rfl
    · rfl
    · rfl
  have hparts : p.parts = Text.parts isSlash front ++ part :: Text.parts isSlash back := by
    rw [parts_eq front _ hp, Text.parts_append_separator rfl, hsingle, List.singleton_append]
  rw [components, components, hparts, parts_eq front back hq,
    front?_between (Text.parts_ne_nil front) (Text.parts_ne_nil back), List.filterMap_append,
    List.filterMap_append, List.filterMap_cons_none (Component.ofPart?_of_isIdle hidle)]

theorem Respelled.components_eq {p q : Path} (h : Respelled p q) : p.components = q.components := by
  cases h with
  | repeated front back =>
    have hidle : Component.isIdle [] = true := rfl
    exact components_of_idle front.toList back.toList hidle (by simp) (by simp)
  | dot front back =>
    have hidle : Component.isIdle ['.'] = true := rfl
    exact components_of_idle front.toList back.toList hidle (by simp) (by simp)
  | trailing front there =>
    have hparts : parts ⟨front ++ "/"⟩ = parts ⟨front⟩ ++ [[]] := parts_eq front.toList [] (by simp)
    have hempty : parts ⟨front⟩ ≠ [[]] := parts_ne_of_text_ne there
    rw [components, components, hparts, front?_append_singleton (parts_ne_nil _) hempty,
      List.filterMap_append]
    exact congrArg _ (List.append_nil _)

/-! ## The spelling without anything idle -/

/-- A text that goes on with components; if it is empty and none comes, it is the root. -/
def goOn : List Char → List Component → List Char
  | done, [] => if done = [] then ['/'] else done
  | done, c :: cs => goOn (done ++ '/' :: c.text.toList) cs

/-- What is written for components, and nothing more. -/
def spelled : List Component → List Char
  | [] => []
  | .root :: cs => goOn [] cs
  | c :: cs => goOn c.text.toList cs

/-- That two texts are spellings of one path. -/
def Joined (cs ds : List Char) : Prop :=
  Relation.EqvGen Respelled ⟨String.ofList cs⟩ ⟨String.ofList ds⟩

namespace Joined

variable {cs ds es : List Char}

theorem refl (cs : List Char) : Joined cs cs :=
  Relation.EqvGen.refl _

theorem symm (h : Joined cs ds) : Joined ds cs :=
  Relation.EqvGen.symm _ _ h

theorem trans (h : Joined cs ds) (h' : Joined ds es) : Joined cs es :=
  Relation.EqvGen.trans _ _ _ h h'

theorem of_respelled {p q : Path} (h : Respelled p q) (hp : p.text.toList = cs)
    (hq : q.text.toList = ds) : Joined cs ds := by
  rw [Joined, ← hp, ← hq, String.ofList_toList, String.ofList_toList]
  exact .rel p q h

/-- An idle part between two others is left out. -/
theorem idle (front : List Char) {part : List Char} (hidle : Component.isIdle part = true)
    (back : List Char) : Joined (front ++ '/' :: (part ++ '/' :: back)) (front ++ '/' :: back) := by
  rcases Component.isIdle_iff.mp hidle with rfl | rfl
  · exact of_respelled (.repeated (String.ofList front) (String.ofList back)) (by simp) (by simp)
  · exact of_respelled (.dot (String.ofList front) (String.ofList back)) (by simp) (by simp)

theorem trailing {front : List Char} (h : front ≠ []) : Joined (front ++ ['/']) front :=
  of_respelled (.trailing (String.ofList front) (by simpa using h)) (by simp) (by simp)

/-- An idle part at the end is left out, unless it makes the text a root. -/
theorem idle_end (front : List Char) {part : List Char} (hidle : Component.isIdle part = true) :
    Joined (front ++ '/' :: part) (goOn front []) := by
  -- with one more separator behind it, the part is between two others
  have hclosed : Joined ((front ++ '/' :: part) ++ ['/']) (front ++ '/' :: part) :=
    trailing (by simp)
  rw [List.append_assoc] at hclosed
  have hbetween : Joined (front ++ '/' :: part) (front ++ ['/']) :=
    hclosed.symm.trans (idle front hidle [])
  rw [goOn]
  split
  · next hfront =>
    subst hfront
    exact hbetween
  · next hfront => exact hbetween.trans (trailing hfront)

end Joined

/-- A part that is not idle stands for a component, which is written as the part. -/
theorem exists_component {part : List Char} (h : ¬ Component.isIdle part = true) :
    ∃ c, Component.ofPart? part = some c ∧ c ≠ .root ∧ c.text.toList = part := by
  rw [Component.ofPart?, if_neg h]
  split
  · next hup => exact ⟨.up, rfl, by simp, hup.symm⟩
  · exact ⟨.name (String.ofList part), rfl, by simp, String.toList_ofList⟩

theorem spelled_cons {c : Component} (h : c ≠ .root) (cs : List Component) :
    spelled (c :: cs) = goOn c.text.toList cs := by
  cases c with
  | root => exact absurd rfl h
  | here => rfl
  | up => rfl
  | name s => rfl

/-- Parts that follow each other are brought into the spelling of their components. -/
theorem joined_goOn (front : List Char) {more : List (List Char)} (h : front ≠ [] ∨ more ≠ []) :
    Joined (front ++ more.flatMap ('/' :: ·)) (goOn front (more.filterMap Component.ofPart?)) := by
  induction more generalizing front with
  | nil =>
    have hfront : front ≠ [] := h.resolve_right fun hmore => hmore rfl
    rw [List.flatMap_nil, List.append_nil, List.filterMap_nil, goOn, if_neg hfront]
    exact .refl _
  | cons part more ih =>
    rw [List.flatMap_cons]
    by_cases hidle : Component.isIdle part = true
    · rw [List.filterMap_cons_none (Component.ofPart?_of_isIdle hidle)]
      rcases more with _ | ⟨next, more⟩
      · rw [List.flatMap_nil, List.append_nil]
        exact Joined.idle_end front hidle
      · exact (Joined.idle front hidle _).trans (ih front (Or.inr (List.cons_ne_nil _ _)))
    · obtain ⟨c, hc, -, htext⟩ := exists_component hidle
      rw [List.filterMap_cons_some hc, goOn, htext, ← List.append_assoc]
      exact ih (front ++ '/' :: part) (Or.inl (by simp))

theorem intercalate_cons (first : List Char) (more : List (List Char)) :
    List.intercalate ['/'] (first :: more) = first ++ more.flatMap ('/' :: ·) := by
  induction more generalizing first with
  | nil => simp [List.intercalate]
  | cons next more ih =>
    rw [List.intercalate_cons_cons, ih, List.flatMap_cons, List.append_assoc]; rfl

/-- A path is written as its first part, and each of the others behind a separator. -/
theorem toList_of_parts {p : Path} {first : List Char} {more : List (List Char)}
    (h : p.parts = first :: more) : p.text.toList = first ++ more.flatMap ('/' :: ·) := by
  rw [← intercalate_cons, ← h]
  exact p.intercalate_parts.symm

/-- A first part that is not idle is no front but a component like the others. -/
theorem front?_eq_none {first : List Char} (h : ¬ Component.isIdle first = true)
    (more : List (List Char)) : front? (first :: more) = none := by
  rw [Component.isIdle_iff, not_or] at h
  rcases more with _ | ⟨next, more⟩
  · rw [front?_singleton, if_neg h.2]
  · rw [front?_cons_cons, if_neg h.2, if_neg h.1]

/-- Every path is brought into the spelling of its components. -/
theorem joined_spelled (p : Path) : Joined p.text.toList (spelled p.components) := by
  obtain ⟨first, more, hparts⟩ := List.exists_cons_of_ne_nil p.parts_ne_nil
  rw [toList_of_parts hparts, components, hparts]
  by_cases hidle : Component.isIdle first = true
  · rcases Component.isIdle_iff.mp hidle with rfl | rfl
    -- nothing stands in front of the first separator, if there is one
    · rcases more with _ | ⟨next, more⟩
      · exact .refl _
      · exact joined_goOn [] (Or.inr (List.cons_ne_nil _ _))
    · exact joined_goOn ['.'] (Or.inl (List.cons_ne_nil _ _))
  · obtain ⟨c, hc, hroot, rfl⟩ := exists_component hidle
    have hthere : c.text.toList ≠ [] := fun h => hidle (by rw [h]; rfl)
    rw [front?_eq_none hidle, Option.toList_none, List.nil_append, List.filterMap_cons_some hc,
      spelled_cons hroot]
    exact joined_goOn c.text.toList (Or.inl hthere)

/-- Two paths have the same components if and only if they are spellings of one path. -/
theorem components_eq_iff {p q : Path} :
    p.components = q.components ↔ Relation.EqvGen Respelled p q := by
  constructor
  · intro h
    have hp := joined_spelled p
    rw [h] at hp
    have hjoined := hp.trans (joined_spelled q).symm
    rwa [Joined, String.ofList_toList, String.ofList_toList] at hjoined
  · intro h
    induction h with
    | rel p q hstep => exact hstep.components_eq
    | refl p => rfl
    | symm p q _ ih => exact ih.symm
    | trans p q r _ _ ih ih' => exact ih.trans ih'

/-! ## A dot in front -/

theorem front?_eq_here {first : List Char} {more : List (List Char)}
    (h : front? (first :: more) = some .here) : first = ['.'] := by
  unfold front? at h
  split at h
  next heq => exact (List.cons.inj heq).1
  next => cases h
  next => cases h

/-- A dot that is written in front of a path changes it, unless the path begins with one. -/
theorem components_dot_iff {s : String} :
    components ⟨"./" ++ s⟩ = components ⟨s⟩ ↔ s = "." ∨ ∃ t, s = "./" ++ t := by
  have hdotted : ∀ t : String, parts ⟨"./" ++ t⟩ = ['.'] :: parts ⟨t⟩ :=
    fun t => parts_eq ['.'] t.toList (by simp)
  have hcomponents : ∀ t : String, components ⟨"./" ++ t⟩
      = .here :: (parts ⟨t⟩).filterMap Component.ofPart? := by
    intro t
    rw [components, hdotted]
    rfl
  rw [hcomponents]
  constructor
  · intro h
    obtain ⟨first, more, hparts⟩ := List.exists_cons_of_ne_nil (parts_ne_nil ⟨s⟩)
    have htext : s.toList = first ++ more.flatMap ('/' :: ·) := toList_of_parts hparts
    have hfirst : first = ['.'] := by
      rw [components, hparts] at h
      rcases hfront : front? (first :: more) with _ | c
      · rw [hfront] at h
        exact absurd h (List.cons_ne_self _ _)
      · rw [hfront] at h
        obtain ⟨rfl, -⟩ := List.cons.inj h
        exact front?_eq_here hfront
    subst hfirst
    rcases more with _ | ⟨next, more⟩
    · exact Or.inl (String.toList_inj.mp htext)
    · refine Or.inr ⟨String.ofList (next ++ more.flatMap ('/' :: ·)), String.toList_inj.mp ?_⟩
      rw [htext]
      simp
  · rintro (rfl | ⟨t, rfl⟩)
    · rfl
    · rw [hcomponents, hdotted]
      rfl

end Path

end BootTrust
