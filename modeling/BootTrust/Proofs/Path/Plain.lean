import BootTrust.Path
/-
Plain paths: paths that are made of names only, so that what they lead to can be read
off their text. A `..` depends on what is there, and an open end asks for a directory;
a plain path has neither.

A writer touches three kinds of paths besides the one it was given: the directory above it, the
directories above that one, and the temporary path beside it. For a plain path all of them are
determined by its components. The directories have its first names (`components_ofParts_prefix`),
and the temporary path has the same components but for the last one (`components_temporary`),
which is another name or, for a name such as `..c`, no name at all. If it is the same name, the
temporary path is the path itself.
-/

set_option autoImplicit false

namespace BootTrust

namespace Component

theorem ofPart?_of_isIdle {part : List Char} (h : isIdle part = true) : ofPart? part = none := by
  rw [ofPart?, if_pos h]

/-- No part stands for the root or for the directory itself; only the front of a path can. -/
theorem ofPart?_eq_some {part : List Char} {c : Component} (h : ofPart? part = some c) :
    isIdle part = false ∧ (c = .up ∧ part = ['.', '.'] ∨ c = .name (String.ofList part)) := by
  unfold ofPart? at h
  split at h
  · simp at h
  · next hidle =>
    refine ⟨by simpa using hidle, ?_⟩
    split at h
    · next hup =>
      cases h
      exact Or.inl ⟨rfl, hup⟩
    · cases h
      exact Or.inr rfl

end Component

namespace Path

/-- Whether a path is made of plain names: no component is the directory itself or the one above,
the last one is a name, and nothing follows it. -/
def isPlain (p : Path) : Bool :=
  p.components.all (fun c => c = .root || c.isName) && p.components.getLast?.any Component.isName
    && !p.endsOpen

def names (p : Path) : List String :=
  p.components.filterMap fun
    | .name s => some s
    | _ => none

/-- Whether a path starts from the root. -/
def isAbsolute (p : Path) : Bool :=
  p.components.head? = some .root

/-- What stands before the names of a plain path: the root, or nothing. -/
def front (p : Path) : List Component :=
  if p.isAbsolute then [.root] else []

/-! ## Parts -/

theorem isSlash_iff (c : Char) : isSlash c = true ↔ c = '/' := by
  simp [isSlash]

theorem parts_ne_nil (p : Path) : p.parts ≠ [] :=
  Text.parts_ne_nil _

/-- No part of a path holds a separator. -/
theorem parts_no_slash (p : Path) : ∀ part ∈ p.parts, ∀ c ∈ part, isSlash c = false :=
  Text.parts_no_separator _

/-- A path is written as its parts with separators between them. -/
theorem intercalate_parts (p : Path) : List.intercalate ['/'] p.parts = p.text.toList :=
  Text.intercalate_parts isSlash_iff _

theorem parts_ne_of_text_ne {p : Path} (h : p.text ≠ "") : p.parts ≠ [[]] := by
  intro hparts
  have htext := p.intercalate_parts
  rw [hparts] at htext
  exact h (by simpa using htext.symm)

/-- A path is put together from its parts, unless it is empty. -/
theorem ofParts_parts {p : Path} (h : p.parts ≠ [[]]) : ofParts p.parts = p := by
  unfold ofParts
  split
  · next hroot => exact absurd hroot h
  · rw [p.intercalate_parts, String.ofList_toList]

theorem front?_singleton (part : List Char) :
    front? [part] = if part = ['.'] then some .here else none := by
  unfold front?
  split
  · next heq =>
    cases heq
    rfl
  · next heq => cases heq
  · next hdot _ => rw [if_neg fun h => hdot [] (by rw [h])]

theorem front?_cons_cons (first second : List Char) (more : List (List Char)) :
    front? (first :: second :: more)
      = if first = ['.'] then some .here else if first = [] then some .root else none := by
  unfold front?
  split
  · next heq =>
    cases heq
    rfl
  · next heq =>
    cases heq
    rfl
  · next hdot hnil =>
    rw [if_neg fun h => hdot _ (by rw [h]), if_neg fun h => hnil _ _ (by rw [h])]

/-- What the front of a path stands for depends on its first part and on whether there is another;
the last part, if it is not idle, does not matter. -/
theorem front?_concat (init : List (List Char)) {a b : List Char} (ha : Component.isIdle a = false)
    (hb : Component.isIdle b = false) : front? (init ++ [a]) = front? (init ++ [b]) := by
  have hdot : ∀ {part : List Char}, Component.isIdle part = false → part ≠ ['.'] := by
    rintro part hpart rfl
    simp [Component.isIdle] at hpart
  rcases init with _ | ⟨first, more⟩
  · rw [List.nil_append, List.nil_append, front?_singleton, front?_singleton, if_neg (hdot ha),
      if_neg (hdot hb)]
  · rcases more with _ | ⟨second, more⟩
    · rw [List.singleton_append, List.singleton_append, front?_cons_cons, front?_cons_cons]
    · rw [List.cons_append, List.cons_append, List.cons_append, List.cons_append,
        front?_cons_cons, front?_cons_cons]

/-- The last part of a plain path is the name that it ends in. -/
theorem exists_parts_of_isPlain {p : Path} (h : p.isPlain = true) :
    ∃ init name, p.parts = init ++ [String.toList name]
      ∧ Component.ofPart? name.toList = some (.name name)
      ∧ p.components
        = (front? p.parts).toList ++ init.filterMap Component.ofPart? ++ [.name name] := by
  simp only [isPlain, Bool.and_eq_true, Bool.not_eq_true'] at h
  obtain ⟨⟨-, hlast⟩, hopen⟩ := h
  rcases List.eq_nil_or_concat p.parts with hnil | ⟨init, part, hparts⟩
  · exact absurd hnil p.parts_ne_nil
  rw [List.concat_eq_append] at hparts
  -- an idle part at the end would either be the whole path or leave it open
  have hidle : Component.isIdle part = false := by
    rcases hidle : Component.isIdle part with _ | _
    · rfl
    rcases List.eq_nil_or_concat init with rfl | ⟨init, next, rfl⟩
    · have hcases : part = [] ∨ part = ['.'] := by simpa [Component.isIdle] using hidle
      rw [components, hparts] at hlast
      rcases hcases with rfl | rfl <;> simp [front?_singleton, Component.ofPart?_of_isIdle hidle,
        Component.isName] at hlast
    · simp [endsOpen, hparts, hidle] at hopen
  obtain ⟨c, hc⟩ : ∃ c, Component.ofPart? part = some c := by
    unfold Component.ofPart?
    rw [if_neg (by simp [hidle])]
    split
    · exact ⟨_, rfl⟩
    · exact ⟨_, rfl⟩
  have hcomponents : p.components
      = (front? p.parts).toList ++ init.filterMap Component.ofPart? ++ [c] := by
    have htail : p.parts.filterMap Component.ofPart? = init.filterMap Component.ofPart? ++ [c] := by
      rw [hparts, List.filterMap_append]
      simp [hc]
    rw [components, htail, ← List.append_assoc]
  rcases (Component.ofPart?_eq_some hc).2 with ⟨rfl, -⟩ | rfl
  · rw [hcomponents] at hlast
    simp [Component.isName] at hlast
  · exact ⟨init, String.ofList part, by rw [String.toList_ofList, hparts],
      by rw [String.toList_ofList, hc], hcomponents⟩

/-- Components that are names come from a list of names. -/
theorem eq_map_name {cs : List Component} (h : ∀ c ∈ cs, c.isName = true) :
    cs = (cs.filterMap fun | .name s => some s | _ => none).map Component.name := by
  induction cs with
  | nil => rfl
  | cons c cs ih =>
    rcases c with _ | _ | _ | s
    · simpa [Component.isName] using h .root List.mem_cons_self
    · simpa [Component.isName] using h .here List.mem_cons_self
    · simpa [Component.isName] using h .up List.mem_cons_self
    · simpa using ih fun c hc => h c (List.mem_cons_of_mem _ hc)

/-- The front of a plain path is the root or nothing, and behind it stand its names. -/
theorem front?_and_names_of_isPlain {p : Path} (h : p.isPlain = true) :
    (front? p.parts).toList = p.front
      ∧ p.parts.filterMap Component.ofPart? = p.names.map .name := by
  have hall : ∀ c ∈ p.components, c = .root ∨ c.isName = true := by
    simp only [isPlain, Bool.and_eq_true, List.all_eq_true, Bool.or_eq_true,
      decide_eq_true_eq] at h
    exact h.1.1
  have hbehind : ∀ c ∈ p.parts.filterMap Component.ofPart?, c ≠ .root := by
    intro c hc
    obtain ⟨part, -, hpart⟩ := List.mem_filterMap.mp hc
    rcases (Component.ofPart?_eq_some hpart).2 with ⟨rfl, -⟩ | rfl <;> simp
  have hrest : ∀ c ∈ p.parts.filterMap Component.ofPart?, c.isName = true := fun c hc =>
    (hall c (by rw [components]; exact List.mem_append_right _ hc)).resolve_left (hbehind c hc)
  -- with nothing in front all components are names; with the root in front all the others are
  rcases hfront : front? p.parts with _ | c
  · have heq : p.components = p.parts.filterMap Component.ofPart? := by
      rw [components, hfront]
      rfl
    have habs : p.isAbsolute = false := by
      rw [isAbsolute, heq, decide_eq_false_iff_not]
      intro hroot
      exact hbehind _ (List.mem_of_mem_head? hroot) rfl
    rw [front, habs, names, heq]
    exact ⟨rfl, eq_map_name hrest⟩
  · have heq : p.components = c :: p.parts.filterMap Component.ofPart? := by
      rw [components, hfront]
      rfl
    have hc : c = .root := by
      have hfront' : c = .root ∨ c = .here := by
        unfold front? at hfront
        split at hfront <;> cases hfront <;> simp
      rcases hfront' with rfl | rfl
      · rfl
      · simpa [Component.isName] using hall .here (by rw [heq]; exact List.mem_cons_self)
    subst hc
    have habs : p.isAbsolute = true := by
      rw [isAbsolute, heq]
      rfl
    rw [front, habs, names, heq]
    exact ⟨rfl, by simpa using eq_map_name hrest⟩

/-- A plain path consists of names, behind the root if it is absolute. -/
theorem components_of_isPlain {p : Path} (h : p.isPlain = true) :
    p.components = p.front ++ p.names.map .name := by
  obtain ⟨hfront, hnames⟩ := front?_and_names_of_isPlain h
  rw [components, hfront, hnames]

/-! ## The directories above -/

/-- The parts above the last one. -/
theorem above_of_concat {p : Path} {init : List (List Char)} {part : List Char}
    (hparts : p.parts = init ++ [part]) (hidle : Component.isIdle part = false) :
    p.above = init.reverse := by
  rw [above, hparts, List.reverse_append, List.reverse_singleton, List.singleton_append]
  rcases init.reverse with _ | ⟨next, more⟩
  · rfl
  · rw [settle, hidle]
    rfl

theorem settle_suffix (reversed : List (List Char)) : settle reversed <:+ reversed := by
  fun_induction settle reversed with
  | case1 part next above hidle ih => exact ih.trans (List.suffix_cons _ _)
  | case2 => exact List.suffix_rfl
  | case3 => exact List.suffix_rfl

/-- The first parts of a plain path have the front of the path, unless they are a single empty
part. -/
theorem front?_of_prefix {p : Path} (h : p.isPlain = true) {parts rest : List (List Char)}
    {last : List Char} (hne : parts ≠ []) (hroot : parts ≠ [[]])
    (hparts : p.parts = parts ++ rest ++ [last]) : front? parts = front? p.parts := by
  rcases parts with _ | ⟨first, more⟩
  · exact absurd rfl hne
  have hhere : front? p.parts ≠ some .here := by
    intro hhere
    have hfront := (front?_and_names_of_isPlain h).1
    rw [hhere, front] at hfront
    split at hfront <;> simp at hfront
  obtain ⟨second, others, hsecond⟩ : ∃ second others,
      more ++ rest ++ [last] = second :: others := by
    rcases hl : more ++ rest ++ [last] with _ | ⟨second, others⟩
    · simp at hl
    · exact ⟨second, others, rfl⟩
  rw [hparts, List.cons_append, List.cons_append, hsecond, front?_cons_cons] at hhere ⊢
  -- a single dot in front would make the path begin here, which a plain one does not
  have hdot : first ≠ ['.'] := fun h => hhere (by rw [if_pos h])
  rw [if_neg hdot]
  rcases more with _ | ⟨second, more⟩
  · have hfirst : first ≠ [] := fun h => hroot (by rw [h])
    rw [front?_singleton, if_neg hdot, if_neg hfirst]
  · rw [front?_cons_cons, if_neg hdot]

/-- A path that ends sooner than a plain one has its first names, as long as there is a part at all.
A single empty part in front of others stands for the root. -/
theorem components_ofParts_prefix {p : Path} (h : p.isPlain = true) {parts : List (List Char)}
    (hne : parts ≠ []) (hpre : parts <+: p.parts.dropLast) :
    ∃ names, names <+: p.names.dropLast ∧ (ofParts parts).components
      = p.front ++ names.map .name := by
  obtain ⟨init, name, hparts, hname, -⟩ := exists_parts_of_isPlain h
  obtain ⟨hfront, hnames⟩ := front?_and_names_of_isPlain h
  rw [hparts, List.dropLast_concat] at hpre
  obtain ⟨rest, rfl⟩ := hpre
  by_cases hroot : parts = [[]]
  · subst hroot
    have habs : (front? p.parts).toList = [.root] := by
      rw [hparts]
      rcases rest with _ | ⟨second, rest⟩ <;> simp [front?_cons_cons]
    refine ⟨[], List.nil_prefix, ?_⟩
    rw [← hfront, habs]
    decide
  · have hno : ∀ part ∈ parts, ∀ c ∈ part, isSlash c = false := fun part hpart =>
      p.parts_no_slash part (by
        rw [hparts]
        exact List.mem_append_left _ (List.mem_append_left _ hpart))
    have hsame : front? parts = front? p.parts := front?_of_prefix h hne hroot hparts
    -- the names of the path split where its parts do
    rw [hparts, List.filterMap_append, List.filterMap_append, List.append_assoc] at hnames
    obtain ⟨above, below, hsplit, habove, hbelow⟩ := List.map_eq_append_iff.mp hnames.symm
    have hbelow_ne : below ≠ [] := by
      rintro rfl
      simp [hname] at hbelow
    refine ⟨above, ⟨below.dropLast, ?_⟩, ?_⟩
    · rw [hsplit, List.dropLast_append_of_ne_nil hbelow_ne]
    · rw [components, parts_ofParts hne hroot hno, hsame, hfront, habove]

/-- The parts of the directory above a plain path are the first ones of the path. The directory has
no part at all, or is the root, only where the path has a single name. -/
theorem exists_parts_parent {p : Path} (h : p.isPlain = true) :
    ∃ parts, p.parent?.getD ⟨""⟩ = ofParts parts ∧ parts <+: p.parts.dropLast := by
  obtain ⟨init, name, hparts, hname, hcomponents⟩ := exists_parts_of_isPlain h
  have hidle := (Component.ofPart?_eq_some hname).1
  have habove : p.above = init.reverse := above_of_concat hparts hidle
  refine ⟨(settle init.reverse).reverse, ?_, ?_⟩
  · rw [parent?, hcomponents, List.getLast?_concat, habove]
    rfl
  · rw [hparts, List.dropLast_concat]
    have := settle_suffix init.reverse
    rw [← List.reverse_prefix] at this
    simpa using this

/-! ## The temporary path -/

/-- What is kept of a name is part of it. -/
theorem mem_of_mem_cutName {name : List Char} {c : Char} (h : c ∈ (cutName name).1) : c ∈ name := by
  unfold cutName at h
  dsimp only at h
  split at h
  · exact h
  · exact List.mem_of_mem_take h

/-- The last part of the temporary path of a plain one: two dots, or a name with the ending
`.tmp`. -/
theorem exists_parts_temporary {p : Path} (h : p.isPlain = true) :
    ∃ last, p.temporary.parts = p.parts.dropLast ++ [last]
      ∧ p.temporary = ofParts (p.parts.dropLast ++ [last])
      ∧ Component.isIdle last = false := by
  obtain ⟨init, name, hparts, hname, hcomponents⟩ := exists_parts_of_isPlain h
  have hidle := (Component.ofPart?_eq_some hname).1
  have habove : p.above = init.reverse := above_of_concat hparts hidle
  have hmem : ∀ c ∈ name.toList, isSlash c = false :=
    p.parts_no_slash _ (by rw [hparts]; simp)
  obtain ⟨last, heq, hlast, hslash⟩ : ∃ last, p.temporary = ofParts (init ++ [last])
      ∧ Component.isIdle last = false ∧ ∀ c ∈ last, isSlash c = false := by
    rw [temporary, hcomponents, List.getLast?_concat]
    simp only [habove]
    split
    · exact ⟨['.', '.'], by simp, by decide, by simp [isSlash]⟩
    · refine ⟨(cutName name.toList).1 ++ ".tmp".toList, by simp, ?_, ?_⟩
      · rcases (cutName name.toList).1 with _ | ⟨c, cs⟩ <;> simp [Component.isIdle]
      · intro c hc
        rcases List.mem_append.mp hc with hc | hc
        · exact hmem c (mem_of_mem_cutName hc)
        · have hall : ".tmp".toList.all (fun c => !isSlash c) = true := by decide
          simpa using List.all_eq_true.mp hall c hc
  -- the parts of a path of parts are these parts, unless there is a single one that is empty
  have hlist : init ++ [last] ≠ [[]] := by
    intro hnil
    rcases init with _ | ⟨first, more⟩
    · simp only [List.nil_append, List.cons.injEq, and_true] at hnil
      subst hnil
      simp [Component.isIdle] at hlast
    · simp at hnil
  refine ⟨last, ?_, by rw [hparts, List.dropLast_concat, heq], hlast⟩
  rw [heq, hparts, List.dropLast_concat, parts_ofParts (by simp) hlist]
  intro part hpart
  rcases List.mem_append.mp hpart with hpart | hpart
  · exact p.parts_no_slash part (by rw [hparts]; exact List.mem_append_left _ hpart)
  · rw [List.mem_singleton.mp hpart]
    exact hslash

/-- The temporary path of a plain one lies beside it. -/
theorem components_temporary {p : Path} (h : p.isPlain = true) :
    ∃ c, p.temporary.components = p.components.dropLast ++ [c]
      ∧ (c = .up ∨ ∃ name, c = .name name ∧ (p.components.getLast? = some (.name name) →
          p.temporary = p)) := by
  obtain ⟨last, htemp, heq, hidle⟩ := exists_parts_temporary h
  obtain ⟨init, name, hparts, hname, hcomponents⟩ := exists_parts_of_isPlain h
  have hidle' := (Component.ofPart?_eq_some hname).1
  rw [hparts, List.dropLast_concat] at htemp heq
  obtain ⟨c, hc⟩ : ∃ c, Component.ofPart? last = some c := by
    unfold Component.ofPart?
    rw [if_neg (by simp [hidle])]
    split
    · exact ⟨_, rfl⟩
    · exact ⟨_, rfl⟩
  refine ⟨c, ?_, ?_⟩
  · rw [hcomponents, List.dropLast_concat, components, htemp, front?_concat init hidle hidle',
      ← hparts, List.filterMap_append, ← List.append_assoc]
    simp [hc]
  · rcases (Component.ofPart?_eq_some hc).2 with ⟨rfl, -⟩ | rfl
    · exact Or.inl rfl
    -- the same last name makes the same parts, and these make the path
    · refine Or.inr ⟨String.ofList last, rfl, fun hsame => ?_⟩
      rw [hcomponents, List.getLast?_concat] at hsame
      have hlast : last = name.toList := by
        have : name = String.ofList last := by simpa using hsame
        rw [this, String.toList_ofList]
      rw [heq, hlast, ← hparts, ofParts_parts]
      rw [hparts, ← hlast]
      rcases init with _ | ⟨first, more⟩
      · rintro hnil
        obtain rfl : last = [] := by simpa using hnil
        simp [Component.isIdle] at hidle
      · simp

end Path

end BootTrust
