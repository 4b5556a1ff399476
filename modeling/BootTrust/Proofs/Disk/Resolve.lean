import BootTrust.Disk.Access
import BootTrust.Proofs.Disk.Surface
import BootTrust.Proofs.Path.Plain
import BootTrust.Proofs.Steps
/-
Where paths lead, in terms of what is seen of a disk. Two facts carry everything that is said about
readers and writers.

A path that resolves leads to the location that its components spell, whatever is on the disk
(`resolve_entry`): the disk decides only whether the path resolves. And a path that resolves keeps
resolving to the same location while no directory goes away (`KeepsDirectories.resolve`), which is
what a writer relies on between its steps.

With these, each single access has its law: what `read`, `write`, `rename` and `makeDirectory` need,
and what is seen of the disk after the effects that they allow.
-/

set_option autoImplicit false

namespace BootTrust.Disk

/-! ## A walk through directories -/

theorem enter_ok {disk : Disk} {place next : Location} {c : Component}
    (hplace : disk.surface? place = some .directory) (h : disk.enter place c = .ok next) :
    next = Location.follow place c ∧ disk.surface? next = some .directory := by
  rcases c with _ | _ | _ | s
  · cases h
    exact ⟨rfl, disk.surface?_root⟩
  · cases h
    exact ⟨rfl, hplace⟩
  -- one up: the root has nothing above it, and what is above a directory is one
  · cases h
    refine ⟨rfl, ?_⟩
    rcases List.eq_nil_or_concat place with rfl | ⟨above, name, rfl⟩
    · exact disk.surface?_root
    · rw [List.concat_eq_append, List.dropLast_concat]
      rw [List.concat_eq_append] at hplace
      exact surface?_above (by rw [hplace]; simp)
  · obtain ⟨-, -, h⟩ := Steps.bind_eq_ok_iff.mp h
    split at h
    · simp at h
    · simp at h
    · next entries hfind =>
      cases h
      exact ⟨rfl, surface?_eq_directory_iff.mpr ⟨entries, hfind⟩⟩

theorem foldlM_enter_ok {disk : Disk} {place last : Location} {cs : List Component}
    (hplace : disk.surface? place = some .directory)
    (h : cs.foldlM disk.enter place = .ok last) :
    last = cs.foldl Location.follow place ∧ disk.surface? last = some .directory := by
  induction cs generalizing place with
  | nil =>
    cases h
    exact ⟨rfl, hplace⟩
  | cons c cs ih =>
    rw [List.foldlM_cons] at h
    obtain ⟨next, hc, h⟩ := Steps.bind_eq_ok_iff.mp h
    obtain ⟨rfl, hnext⟩ := enter_ok hplace hc
    exact ih hnext h

theorem start_ok {disk : Disk} {place : Location} {cs : List Component}
    (h : disk.start cs = .ok place) :
    disk.surface? place = some .directory
      ∧ cs.foldl Location.follow place = cs.foldl Location.follow disk.here := by
  unfold start at h
  split at h
  · cases h
    exact ⟨disk.surface?_root, rfl⟩
  · split at h
    · next entries hfind =>
      cases h
      exact ⟨surface?_eq_directory_iff.mpr ⟨entries, hfind⟩, rfl⟩
    · simp at h

/-- A walk ends in a directory, the one that its components spell. -/
theorem walk_ok {disk : Disk} {place : Location} {cs : List Component}
    (h : disk.walk cs = .ok place) :
    place = cs.foldl Location.follow disk.here ∧ disk.surface? place = some .directory := by
  obtain ⟨first, hs, h⟩ := Steps.bind_eq_ok_iff.mp h
  obtain ⟨hfirst, hsame⟩ := start_ok hs
  rw [← hsame]
  exact foldlM_enter_ok hfirst h

/-- A path that leads to a name leads to the one that it spells, and the directory of that name is
there. -/
theorem resolve_entry {disk : Disk} {p : Path} {place : Location}
    (h : disk.resolve p = .ok (.entry place)) : place = disk.locate p ∧ disk.IsEntry place := by
  obtain ⟨-, -, h⟩ := Steps.bind_eq_ok_iff.mp h
  unfold target at h
  split at h
  · simp at h
  -- a name comes last: the walk before it ends where the others spell, and the name is added
  · next s hlast =>
    obtain ⟨above, hwalk, h⟩ := Steps.bind_eq_ok_iff.mp h
    obtain ⟨-, -, h⟩ := Steps.bind_eq_ok_iff.mp h
    cases h
    obtain ⟨hspell, habove⟩ := walk_ok hwalk
    obtain ⟨init, hinit⟩ : ∃ init, p.components = init ++ [Component.name s] :=
      List.getLast?_eq_some_iff.mp hlast
    rw [hinit, List.dropLast_concat] at hspell
    refine ⟨?_, above, s, rfl, habove⟩
    rw [locate, hinit, List.foldl_append, ← hspell]
    rfl
  -- otherwise the path leads to a directory and not to a name in one
  · rcases hw : disk.walk p.components with e | above
    · rw [hw] at h
      cases h
    · rw [hw] at h
      cases h

/-! ## Directories that stay -/

/-- Whether every directory of one disk is still there on another, and relative paths start from the
same one. -/
structure KeepsDirectories (disk disk' : Disk) : Prop where
  here : disk'.here = disk.here
  directory : ∀ {place}, disk.surface? place = some .directory →
    disk'.surface? place = some .directory

namespace KeepsDirectories

variable {disk disk' disk'' : Disk}

theorem refl (disk : Disk) : KeepsDirectories disk disk :=
  ⟨rfl, id⟩

theorem trans (first : KeepsDirectories disk disk') (second : KeepsDirectories disk' disk'') :
    KeepsDirectories disk disk'' :=
  ⟨second.here.trans first.here, fun h => second.directory (first.directory h)⟩

/-- A change at a location that is no directory takes no directory away. -/
theorem of_update {place : Location} {s : Option Surface} (hhere : disk'.here = disk.here)
    (hplace : disk.surface? place ≠ some .directory)
    (h : disk'.surface? = Function.update disk.surface? place s) : KeepsDirectories disk disk' := by
  refine ⟨hhere, fun {other} hother => ?_⟩
  have hne : other ≠ place := by
    rintro rfl
    exact hplace hother
  rw [h, Function.update_of_ne hne, hother]

/-- The form of `directory` that speaks of nodes. -/
theorem find? (keeps : KeepsDirectories disk disk') {place : Location}
    {entries : List (String × Node)} (h : disk.find? place = some (.directory entries)) :
    ∃ entries', disk'.find? place = some (.directory entries') :=
  surface?_eq_directory_iff.mp (keeps.directory (surface?_eq_directory_iff.mpr ⟨entries, h⟩))

theorem enter (keeps : KeepsDirectories disk disk') {place next : Location} {c : Component}
    (h : disk.enter place c = .ok next) : disk'.enter place c = .ok next := by
  rcases c with _ | _ | _ | s
  · exact h
  · exact h
  · exact h
  · obtain ⟨u, hname, h⟩ := Steps.bind_eq_ok_iff.mp h
    refine Steps.bind_eq_ok_iff.mpr ⟨u, hname, ?_⟩
    split at h
    · simp at h
    · simp at h
    · next entries hfind =>
      obtain ⟨entries', hfind'⟩ := keeps.find? hfind
      rw [hfind']
      exact h

theorem foldlM_enter (keeps : KeepsDirectories disk disk') {first last : Location}
    {cs : List Component} (h : cs.foldlM disk.enter first = .ok last) :
    cs.foldlM disk'.enter first = .ok last := by
  induction cs generalizing first with
  | nil => exact h
  | cons c cs ih =>
    rw [List.foldlM_cons] at h ⊢
    obtain ⟨next, hc, h⟩ := Steps.bind_eq_ok_iff.mp h
    exact Steps.bind_eq_ok_iff.mpr ⟨next, keeps.enter hc, ih h⟩

theorem start (keeps : KeepsDirectories disk disk') {place : Location} {cs : List Component}
    (h : disk.start cs = .ok place) : disk'.start cs = .ok place := by
  unfold Disk.start at h ⊢
  split at h
  · exact h
  · rw [keeps.here]
    split at h
    · next entries hfind =>
      obtain ⟨entries', hfind'⟩ := keeps.find? hfind
      rw [hfind']
      exact h
    · simp at h

theorem walk (keeps : KeepsDirectories disk disk') {place : Location} {cs : List Component}
    (h : disk.walk cs = .ok place) : disk'.walk cs = .ok place := by
  obtain ⟨first, hs, h⟩ := Steps.bind_eq_ok_iff.mp h
  exact Steps.bind_eq_ok_iff.mpr ⟨first, keeps.start hs, keeps.foldlM_enter h⟩

/-- A path that resolves keeps resolving, to the same target. -/
theorem resolve (keeps : KeepsDirectories disk disk') {p : Path} {t : Target}
    (h : disk.resolve p = .ok t) : disk'.resolve p = .ok t := by
  obtain ⟨u, hcheck, h⟩ := Steps.bind_eq_ok_iff.mp h
  refine Steps.bind_eq_ok_iff.mpr ⟨u, hcheck, ?_⟩
  unfold target at h ⊢
  split at h
  · simp at h
  · obtain ⟨above, hwalk, h⟩ := Steps.bind_eq_ok_iff.mp h
    exact Steps.bind_eq_ok_iff.mpr ⟨above, keeps.walk hwalk, h⟩
  · rcases hw : disk.walk p.components with e | above
    · rw [hw] at h
      cases h
    · rw [hw] at h
      rw [keeps.walk hw]
      exact h

/-- Where relative paths start from decides which location a path spells. -/
theorem locate (keeps : KeepsDirectories disk disk') (p : Path) :
    disk'.locate p = disk.locate p := by
  rw [Disk.locate, Disk.locate, keeps.here]

end KeepsDirectories

/-! ## Single accesses -/

/-- A file is read where its path leads, and nowhere is it seen otherwise. -/
theorem read_eq_ok_iff {disk : Disk} {p : Path} {content : Bytes} :
    disk.read p = .ok content ↔ disk.resolve p = .ok (.entry (disk.locate p))
      ∧ disk.surface? (disk.locate p) = some (.file content) ∧ p.endsOpen = false := by
  constructor
  · intro h
    obtain ⟨place | place, hr, h⟩ := Steps.bind_eq_ok_iff.mp h
    · obtain ⟨rfl, -⟩ := resolve_entry hr
      simp only at h
      split at h
      · simp at h
      · simp at h
      · next found hfind =>
        split at h
        · simp at h
        · next hopen =>
          cases h
          exact ⟨hr, surface?_eq_file_iff.mpr hfind, by simpa using hopen⟩
    · simp at h
  · rintro ⟨hr, hfile, hopen⟩
    refine Steps.bind_eq_ok_iff.mpr ⟨_, hr, ?_⟩
    simp only [surface?_eq_file_iff.mp hfile, hopen]
    rfl

/-- What writing a file needs, and its effects. -/
theorem write_ok {disk : Disk} {p : Path} {content : Bytes} {effects : List Effect}
    (h : write p content disk = .ok effects) :
    disk.resolve p = .ok (.entry (disk.locate p))
      ∧ disk.surface? (disk.locate p) ≠ some .directory
      ∧ effects = [.clear (disk.locate p), .append (disk.locate p) content] := by
  obtain ⟨place | place, hr, h⟩ := Steps.bind_eq_ok_iff.mp h
  · obtain ⟨rfl, -⟩ := resolve_entry hr
    simp only at h
    split at h
    · simp at h
    · next hno =>
      cases h
      refine ⟨hr, fun hdir => ?_, rfl⟩
      obtain ⟨entries, hfind⟩ := surface?_eq_directory_iff.mp hdir
      exact hno entries hfind
  · simp at h

/-- A written file is seen with its content, and nothing else is seen to change. -/
theorem surface?_write {disk : Disk} {p : Path} {content : Bytes} {effects : List Effect}
    (h : write p content disk = .ok effects) :
    (Effect.applyAll effects disk).surface?
      = Function.update disk.surface? (disk.locate p) (some (.file content)) := by
  obtain ⟨hr, hdir, rfl⟩ := write_ok h
  obtain ⟨-, hentry⟩ := resolve_entry hr
  have hclear := Effect.surface?_clear hentry hdir
  have hempty : (Effect.apply disk (.clear (disk.locate p))).surface? (disk.locate p)
      = some (.file []) := by
    rw [hclear, Function.update_self]
  have happend := Effect.surface?_append content hempty
  rw [hclear, Function.update_idem, List.nil_append] at happend
  exact happend

/-- What renaming needs, and its effect. -/
theorem rename_ok {disk : Disk} {source p : Path} {effects : List Effect}
    (h : rename source p disk = .ok effects) :
    disk.resolve source = .ok (.entry (disk.locate source))
      ∧ disk.resolve p = .ok (.entry (disk.locate p)) ∧ p.endsOpen = false
      ∧ disk.surface? (disk.locate p) ≠ some .directory
      ∧ effects = [.rename (disk.locate source) (disk.locate p)] := by
  obtain ⟨old, hs, h⟩ := Steps.bind_eq_ok_iff.mp h
  obtain ⟨new, hr, h⟩ := Steps.bind_eq_ok_iff.mp h
  -- both lead to names, neither ends in a dot, and the new one is free or a file
  split at h
  · obtain ⟨rfl, -⟩ := resolve_entry hs
    obtain ⟨rfl, -⟩ := resolve_entry hr
    split at h
    · obtain ⟨-, -, h⟩ := Steps.bind_eq_ok_iff.mp h
      simp at h
    · split at h
      · simp at h
      · next hopen =>
        split at h
        · simp at h
        · next hno =>
          cases h
          refine ⟨hs, hr, by simpa using hopen, fun hdir => ?_, rfl⟩
          obtain ⟨entries, hfind⟩ := surface?_eq_directory_iff.mp hdir
          simp [hfind, Node.isDirectory] at hno
  · simp at h

/-- A path that is not open at its end does not end in a dot. -/
theorem endsInDot_of_endsOpen {p : Path} (h : p.endsOpen = false) : p.endsInDot = false := by
  unfold Path.endsOpen at h
  unfold Path.endsInDot
  rcases hr : p.parts.reverse with _ | ⟨part, _ | ⟨next, more⟩⟩
  · rfl
  · by_cases hnil : part = [] <;> simp [hnil]
  · rw [hr] at h
    have hpart : part ≠ [] ∧ part ≠ ['.'] := by simpa [Component.isIdle] using h
    simp [hpart.1, hpart.2]

/-- Renaming goes through where it has what it needs. -/
theorem rename_eq_ok {disk : Disk} {source p : Path}
    (hs : disk.resolve source = .ok (.entry (disk.locate source)))
    (hr : disk.resolve p = .ok (.entry (disk.locate p))) (hopen : p.endsOpen = false)
    (hdir : disk.surface? (disk.locate p) ≠ some .directory) :
    rename source p disk = .ok [.rename (disk.locate source) (disk.locate p)] := by
  have hno : (disk.find? (disk.locate p)).any Node.isDirectory = false := by
    rcases hf : disk.find? (disk.locate p) with _ | content | entries
    · rfl
    · rfl
    · exact absurd (surface?_eq_directory_iff.mpr ⟨entries, hf⟩) hdir
  unfold rename
  rw [hs, hr]
  simp only [bind, Except.bind, endsInDot_of_endsOpen hopen, hopen, hno]
  rfl

/-- What making a directory needs, and its effect. -/
theorem makeDirectory_ok {disk : Disk} {p : Path} {effects : List Effect}
    (h : makeDirectory p disk = .ok effects) :
    disk.IsEntry (disk.locate p) ∧ disk.surface? (disk.locate p) = none
      ∧ effects = [.makeDirectory (disk.locate p)] := by
  obtain ⟨place | place, hr, h⟩ := Steps.bind_eq_ok_iff.mp h
  · obtain ⟨rfl, hentry⟩ := resolve_entry hr
    simp only at h
    split at h
    · simp at h
    · next hno =>
      cases h
      refine ⟨hentry, ?_, rfl⟩
      rw [surface?_eq_none_iff]
      simpa using hno
  · simp at h

end BootTrust.Disk
