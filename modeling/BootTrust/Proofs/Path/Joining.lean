import BootTrust.Proofs.Path.Plain
import Mathlib.Data.List.Basic
/-
Going on from a path. A part without a separator in it can only add to a path: the components of the
path stay in front, and the part becomes the last one unless it stands for nothing
(`components_join`). That needs the path to be there. From an empty path the part would be at the
front, where a dot is a component of its own.

What is written for a path that goes on by several parts is the path, a separator if it does not end
in one, and the parts with single separators between them (`text_foldl_join`).
-/

set_option autoImplicit false

namespace BootTrust.Path

variable {p : Path} {part : String}

/-! ## The front of a path that goes on -/

/-- The last of several parts has no say in what the front stands for. -/
theorem front?_last {init : List (List Char)} (hne : init ≠ []) (a b : List Char) :
    front? (init ++ [a]) = front? (init ++ [b]) := by
  rcases init with _ | ⟨first, _ | ⟨second, more⟩⟩
  · exact absurd rfl hne
  · rw [List.singleton_append, List.singleton_append, front?_cons_cons, front?_cons_cons]
  · simp only [List.cons_append, front?_cons_cons]

/-- A part that is added has none either, unless it is added to nothing. -/
theorem front?_append_singleton {init : List (List Char)} (hne : init ≠ []) (hempty : init ≠ [[]])
    (a : List Char) : front? (init ++ [a]) = front? init := by
  rcases init with _ | ⟨first, _ | ⟨second, more⟩⟩
  · exact absurd rfl hne
  · have hfirst : first ≠ [] := fun h => hempty (by rw [h])
    rw [List.singleton_append, front?_cons_cons, front?_singleton, if_neg hfirst]
  · simp only [List.cons_append, front?_cons_cons]

/-! ## One part -/

/-- The text of a path as far as it stays in front of what is added. -/
def openText (p : Path) : List Char :=
  if p.text.toList.getLast? = some '/' then p.text.toList else p.text.toList ++ ['/']

theorem slash_mem_openText (p : Path) : '/' ∈ p.openText := by
  rw [openText]
  split
  · next hopen => exact List.mem_of_getLast? hopen
  · exact List.mem_append_right _ List.mem_cons_self

theorem length_openText_le (p : Path) : p.openText.length ≤ p.text.toList.length + 1 := by
  rw [openText]
  split
  · exact Nat.le_succ _
  · exact Nat.le_of_eq (List.length_append ..)

/-- A part that does not begin with a separator is written behind the path. -/
theorem toList_join (hp : p.text ≠ "") (hpart : '/' ∉ part.toList) :
    (p.join part).text.toList = p.openText ++ part.toList := by
  have hrelative : ¬ part.toList.head? = some '/' := fun h => hpart (List.mem_of_head? h)
  have hthere : p.text.toList ≠ [] := by simpa using hp
  rw [join, if_neg hrelative, openText]
  by_cases hopen : p.text.toList.getLast? = some '/'
  · simp [hopen]
  · simp [hopen, hthere]

theorem text_join_ne_empty (hp : p.text ≠ "") (hpart : '/' ∉ part.toList) :
    (p.join part).text ≠ "" := by
  intro h
  have hlist := toList_join hp hpart
  rw [h, openText] at hlist
  split at hlist
  · simp_all
  · simp at hlist

/-- The components of a path stay when it goes on, and the part comes behind them. -/
theorem components_join (hp : p.text ≠ "") (hpart : '/' ∉ part.toList) :
    (p.join part).components = p.components ++ (Component.ofPart? part.toList).toList := by
  have hsingle : Text.parts isSlash part.toList = [part.toList] :=
    Text.parts_of_no_separator fun c hc => by
      rw [isSlash, decide_eq_false_iff_not]
      rintro rfl
      exact hpart hc
  have hslash : isSlash '/' = true := rfl
  have hkept : ∀ init : List (List Char), (init ++ [part.toList]).filterMap Component.ofPart?
      = init.filterMap Component.ofPart? ++ (Component.ofPart? part.toList).toList := by
    intro init
    rw [List.filterMap_append, List.filterMap_eq_flatMap_toList, List.filterMap_eq_flatMap_toList,
      List.flatMap_singleton]
  have hjoin := toList_join hp hpart
  rw [openText] at hjoin
  by_cases hopen : p.text.toList.getLast? = some '/'
  -- the path ends in an empty part, which gives way
  · obtain ⟨init, hinit⟩ := List.getLast?_eq_some_iff.mp hopen
    rw [if_pos hopen, hinit, List.append_assoc, List.singleton_append] at hjoin
    have hparts : (p.join part).parts = Text.parts isSlash init ++ [part.toList] := by
      rw [parts, hjoin, Text.parts_append_separator hslash, hsingle]
    have hbase : p.parts = Text.parts isSlash init ++ [[]] := by
      rw [parts, hinit, Text.parts_append_separator hslash]
      rfl
    have hgone : (Text.parts isSlash init ++ [[]]).filterMap Component.ofPart?
        = (Text.parts isSlash init).filterMap Component.ofPart? := by
      rw [List.filterMap_append]
      exact List.append_nil _
    rw [components, components, hparts, hbase, front?_last (Text.parts_ne_nil init) part.toList [],
      hkept, hgone, List.append_assoc]
  · have hparts : (p.join part).parts = p.parts ++ [part.toList] := by
      rw [if_neg hopen, List.append_assoc, List.singleton_append] at hjoin
      rw [parts, hjoin, Text.parts_append_separator hslash, hsingle, parts]
    rw [components, components, hparts,
      front?_append_singleton p.parts_ne_nil (parts_ne_of_text_ne hp), hkept, List.append_assoc]

/-! ## Several parts -/

/-- So do they when a path goes on by several parts. -/
theorem components_foldl_join (hp : p.text ≠ "") {parts : List String}
    (hparts : ∀ part ∈ parts, '/' ∉ part.toList) :
    (parts.foldl join p).components
      = p.components ++ parts.filterMap fun part => Component.ofPart? part.toList := by
  induction parts generalizing p with
  | nil => simp
  | cons part parts ih =>
    obtain ⟨hpart, hparts⟩ := List.forall_mem_cons.mp hparts
    rw [List.foldl_cons, ih (text_join_ne_empty hp hpart) hparts, components_join hp hpart,
      List.append_assoc, List.filterMap_eq_flatMap_toList, List.filterMap_eq_flatMap_toList,
      List.flatMap_cons]

/-- What is written for a path that goes on by parts. -/
theorem text_foldl_join (hp : p.text ≠ "") {parts : List String} (hne : parts ≠ [])
    (hparts : ∀ part ∈ parts, part ≠ "" ∧ '/' ∉ part.toList) :
    (parts.foldl join p).text.toList
      = p.openText ++ List.intercalate ['/'] (parts.map String.toList) := by
  induction parts generalizing p with
  | nil => exact absurd rfl hne
  | cons part parts ih =>
    obtain ⟨⟨hthere, hpart⟩, hparts⟩ := List.forall_mem_cons.mp hparts
    have hjoin := toList_join hp hpart
    rcases parts with _ | ⟨next, parts⟩
    · simpa [List.intercalate] using hjoin
    -- the part is the end of the path now, so a separator comes behind it
    · have hopen : (p.join part).openText = p.openText ++ part.toList ++ ['/'] := by
        have hlast : ¬ (p.openText ++ part.toList).getLast? = some '/' := by
          rw [List.getLast?_append_of_ne_nil _ (by simpa using hthere)]
          exact fun h => hpart (List.mem_of_getLast? h)
        rw [openText, hjoin, if_neg hlast]
      rw [List.foldl_cons, ih (text_join_ne_empty hp hpart) (by simp) hparts, hopen, List.map_cons,
        List.map_cons, List.map_cons, List.intercalate_cons_cons]
      simp only [List.append_assoc]

end BootTrust.Path
