import BootTrust.Proofs.Disk.Replace
import BootTrust.Proofs.Json.Printed
import BootTrust.Proofs.State.View
import BootTrust.State.File
/-
The store in a file. A state that was written is read again as the same map: it is printed as a text
with a brace at its front, which is not blank, the text is read as the map that was printed, and the
map has small keys, so that folding them changes nothing (`parse_document`).

With what a replacement does to a disk this makes the file a store that is seen as a map
(`store_isSeenAs`). A request that fails leaves the file alone. What it may leave behind are
directories above the file, and these matter in one case only: a name that is too long for the
system is not noticed as long as a directory before it is missing.
-/

set_option autoImplicit false

namespace BootTrust.FileState

open Json

variable {p : Path} {disk disk' : Disk} {values : SortedMap String}

/-! ## Reading what was written -/

/-- A text that begins with a brace is not blank. -/
theorem isAllBlank_of_encode {text : String} {rest : Bytes}
    (h : Utf8.encode text = openObject :: rest) : Text.isAllBlank text = false := by
  rw [Text.isAllBlank]
  unfold Utf8.encode at h
  rcases htext : text.toList with _ | ⟨c, cs⟩
  · rw [htext] at h
    simp at h
  · rw [htext, List.flatMap_cons] at h
    have hchar := Utf8.decodeChar?_encode_append c (cs.flatMap String.utf8EncodeChar)
    have hbrace : Utf8.decodeChar? (openObject :: rest) = some ('\x7b', rest) := rfl
    rw [h, hbrace] at hchar
    obtain ⟨rfl, -⟩ : '\x7b' = c ∧ _ := by simpa using hchar
    have hno : Text.isBlank '\x7b' = false := by decide
    rw [List.all_cons, hno, Bool.false_and]

/-- A state with small keys is read as it was written. -/
theorem parse_document (h : State.HasSmallKeys values) :
    ∃ text, Utf8.decode? (document values).pretty = some text ∧ parse text = .ok values := by
  obtain ⟨text, hdecode, hencode⟩ := ((document values).isText_print .indented 0).decode?
  refine ⟨text, hdecode, ?_⟩
  obtain ⟨body, hbody⟩ := print_object .indented 0
    (values.entries.map fun e => (e.1, Document.string e.2))
  have hread := textMap_print .indented 0 values []
  rw [List.append_nil] at hread
  have hall : readAll textMap (Utf8.encode text) = .ok values := by
    rw [readAll, hencode, document, hread]
    rfl
  rw [parse, isAllBlank_of_encode (hencode.trans hbody), hall]
  exact congrArg Except.ok (State.foldKeys_of_hasSmallKeys h)

/-- A file that holds a state with small keys is read as that state. -/
theorem read_of_document (h : State.HasSmallKeys values)
    (hread : disk.read p = .ok (document values).pretty) : read p disk = .ok values := by
  obtain ⟨text, hdecode, hparse⟩ := parse_document h
  rw [read, hread]
  simp only [hdecode, hparse]

/-- A missing file is an empty state. -/
theorem read_of_notFound {cause : IoFailure} (hread : disk.read p = .error cause)
    (hkind : cause.kind = .notFound) : read p disk = .ok .empty := by
  rw [read, hread]
  exact if_pos hkind

/-- A file that cannot be read for another reason is an error. -/
theorem read_of_error {cause : IoFailure} (hread : disk.read p = .error cause)
    (hkind : cause.kind ≠ .notFound) : read p disk = .error (.io cause) := by
  rw [read, hread]
  exact if_neg hkind

/-- Whatever is read has small keys. -/
theorem hasSmallKeys_of_read (h : read p disk = .ok values) : State.HasSmallKeys values := by
  unfold read parse at h
  split at h
  -- no file
  · split at h
    · cases h
      exact State.HasSmallKeys.empty
    · simp at h
  · split at h
    · split at h
      -- a blank file
      · cases h
        exact State.HasSmallKeys.empty
      -- an object, whose keys are folded
      · split at h
        · cases h
          exact State.hasSmallKeys_foldKeys _
        · simp at h
    · simp at h

/-! ## Setting a value -/

/-- Setting a value replaces the file, and reports the failure for the key. -/
theorem set_eq (h : read p disk = .ok values) (key value : String) :
    FileState.set p key value disk
      = ((Disk.replaceFile p (document (MemoryState.set values key value)).pretty disk).1,
        (Disk.replaceFile p (document (MemoryState.set values key value)).pretty disk).2.mapError
          fun cause => .write key (StateError.io cause).message) := by
  simp only [FileState.set, h]
  rcases Disk.replaceFile p (document (MemoryState.set values key value)).pretty disk
    with ⟨effects, cause | ⟨⟩⟩
  · rfl
  · rfl

/-- The outcome of setting a value is that of the replacement, with the failure reported for the
key. -/
theorem store_set (h : read p disk = .ok values) (key value : String) :
    (store p).set disk key value
      = (((Disk.replaceFile p (document (MemoryState.set values key value)).pretty).run disk).1,
        ((Disk.replaceFile p (document (MemoryState.set values key value)).pretty).run disk).2
          |>.mapError fun cause => .write key (StateError.io cause).message) := by
  simp only [store, set_eq h, Task.run]

/-- A state that cannot be read is not replaced. -/
theorem store_set_unread {e : StateError} (h : read p disk = .error e) (key value : String) :
    (store p).set disk key value = (disk, .error (.write key e.message)) := by
  simp only [store, set, h]
  rfl

/-- After a value was set, the file holds the state with that value, and is read as this state. -/
theorem read_of_set_ok {key value : String} (h : read p disk = .ok values)
    (hset : (store p).set disk key value = (disk', .ok ())) :
    disk'.read p = .ok (document (MemoryState.set values key value)).pretty
      ∧ read p disk' = .ok (MemoryState.set values key value) := by
  rw [store_set h] at hset
  rcases hrun : (Disk.replaceFile p (document (MemoryState.set values key value)).pretty).run disk
    with ⟨left, cause | ⟨⟩⟩
  · rw [hrun] at hset
    cases hset
  · rw [hrun] at hset
    cases hset
    obtain ⟨-, -, -, -, -, hread⟩ := Disk.replaceFile_ok hrun
    exact ⟨hread, read_of_document ((hasSmallKeys_of_read h).set key value) hread⟩

/-- After a value could not be set, the state is the one before, or it cannot be read any more. The
latter needs a name on the path that is too long for the system. -/
theorem read_of_set_error (hplain : p.isPlain = true) {key value : String} {e : StateError}
    (h : read p disk = .ok values) (hset : (store p).set disk key value = (disk', .error e)) :
    read p disk' = .ok values
      ∨ (∃ cause, read p disk' = .error cause) ∧ ∃ name ∈ p.names, ¬ Disk.NameFits name := by
  rw [store_set h] at hset
  rcases hrun : (Disk.replaceFile p (document (MemoryState.set values key value)).pretty).run disk
    with ⟨left, cause | ⟨⟩⟩
  · rw [hrun] at hset
    obtain ⟨rfl, -⟩ : left = disk' ∧ _ := by simpa only [Prod.mk.injEq] using hset
    rcases hread : disk.read p with reported | bytes
    -- there was no file: there is none now, but the failure that says so may be another one
    · have hempty : reported.kind = .notFound ∧ values = .empty := by
        simp only [read, hread] at h
        split at h
        · next hkind =>
          cases h
          exact ⟨hkind, rfl⟩
        · simp at h
      obtain ⟨hkind, rfl⟩ := hempty
      obtain ⟨hnone, hmissing⟩ := Disk.read_notFound_after_error hplain hrun hread hkind
      rcases hnow : left.read p with now | old
      · by_cases hnotFound : now.kind = .notFound
        · exact Or.inl (read_of_notFound hnow hnotFound)
        · refine Or.inr ⟨⟨.io now, read_of_error hnow hnotFound⟩, ?_⟩
          by_contra hshort
          have hfits : ∀ name ∈ p.names, Disk.NameFits name := fun name hmem => by
            by_contra hlong
            exact hshort ⟨name, hmem, hlong⟩
          rw [hmissing hfits] at hnow
          cases hnow
          exact hnotFound rfl
      · exact absurd hnow (hnone old)
    -- there was a file, and it has been left alone
    · left
      rw [read, Disk.read_ok_after_error hplain hrun hread]
      rw [read, hread] at h
      exact h
  · rw [hrun] at hset
    cases hset

/-- No value can be set where a name on the path is too long for the system. -/
theorem set_refused_of_long (hplain : p.isPlain = true)
    (hlong : ∃ name ∈ p.names, ¬ Disk.NameFits name) (disk : Disk) (key value : String) :
    ∃ disk' e, (store p).set disk key value = (disk', .error e) := by
  rcases hset : (store p).set disk key value with ⟨disk', e | ⟨⟩⟩
  · exact ⟨disk', e, rfl⟩
  · rcases hread : read p disk with e | values
    · rw [store_set_unread hread] at hset
      simp at hset
    -- the file could be read afterwards, and a path with a long name leads nowhere
    · obtain ⟨name, hname, hno⟩ := hlong
      obtain ⟨hres, -, -⟩ := Disk.read_eq_ok_iff.mp (read_of_set_ok hread hset).1
      exact absurd (Disk.nameFits_of_resolve hplain hres name hname) hno

/-! ## The file as a store -/

/-- The map that a file shows, if it can be read. -/
def view (p : Path) (disk : Disk) : Option (SortedMap String) :=
  (read p disk).toOption

theorem view_eq_some_iff : view p disk = some values ↔ read p disk = .ok values :=
  Steps.toOption_eq_some_iff

theorem view_eq_none_iff : view p disk = none ↔ ∃ e, read p disk = .error e :=
  Steps.toOption_eq_none_iff

/-- The store in a file at a plain path is the map that the file shows. -/
theorem store_isSeenAs (hplain : p.isPlain = true) :
    (store p).IsSeenAs (view p) (∃ name ∈ p.names, ¬ Disk.NameFits name) := by
  constructor
  · intro disk values key h
    simp only [store, get, view_eq_some_iff.mp h]
  · intro disk key h
    obtain ⟨e, hread⟩ := view_eq_none_iff.mp h
    exact ⟨.read key e.message, by simp only [store, get, hread]⟩
  · intro disk key value h
    obtain ⟨e, hread⟩ := view_eq_none_iff.mp h
    exact ⟨_, store_set_unread hread key value⟩
  · intro disk disk' values key value h hset
    exact view_eq_some_iff.mpr (read_of_set_ok (view_eq_some_iff.mp h) hset).2
  · intro disk disk' values key value e h hset
    rcases read_of_set_error hplain (view_eq_some_iff.mp h) hset with hread | ⟨hread, hlong⟩
    · exact Or.inl (view_eq_some_iff.mpr hread)
    · exact Or.inr ⟨view_eq_none_iff.mpr hread, hlong⟩

end BootTrust.FileState
