import BootTrust.Proofs.Disk.Replace
/-
What a replacement does not touch. A replacement that goes well has changed the file, its temporary
name, and the directories above it that were missing (`Replaced`). One that fails may have come to
any of its steps, and still the file is what it was, no other file has changed, and nothing has been
taken away but, perhaps, what had the temporary name (`Spared`).

Both come from what is known of the disk after each step, location by location: a location is that
of the file, that of its temporary name, one on the way to them, or one that no step touches.
-/

set_option autoImplicit false

namespace BootTrust.Disk

variable {disk disk' : Disk} {p : Path} {content : Bytes}

/-- Where the same files are seen, the same content is found. -/
theorem content?_congr {place : Location}
    (h : ∀ bytes, disk'.surface? place = some (.file bytes)
      ↔ disk.surface? place = some (.file bytes)) :
    disk'.content? place = disk.content? place := by
  have hfile : ∀ (disk : Disk) (bytes : Bytes),
      disk.content? place = some bytes ↔ disk.surface? place = some (.file bytes) := by
    intro disk bytes
    rw [surface?_eq_file_iff, content?]
    rcases disk.find? place with _ | bytes' | entries
    · simp
    · simp
    · simp
  apply Option.ext
  intro bytes
  rw [hfile, hfile, h bytes]

/-- A plain path has a location of its own below the directories above it. -/
theorem exists_locate_eq (h : p.isPlain = true) (disk : Disk) :
    ∃ last, disk.locate p = (disk.locate p).dropLast ++ [last] := by
  obtain ⟨above, last, hnames⟩ := Path.exists_names_of_isPlain h
  refine ⟨last, ?_⟩
  rw [locate_of_isPlain h, hnames, ← List.append_assoc, List.dropLast_concat]

/-! ## A replacement that goes well -/

/-- What is left of a disk by a replacement that went well. -/
structure Replaced (p : Path) (disk disk' : Disk) : Prop where
  /-- There is a file at the path. -/
  path : ∃ content, disk'.read p = .ok content
  /-- Every other file has the content it had, and there is no new one. -/
  files : ∀ place, place ≠ disk.locate p → place ≠ disk.locate p.temporary →
    disk'.content? place = disk.content? place
  /-- Nothing has the temporary name, unless it is the name of the file. -/
  temporary : p.temporary ≠ p → disk'.find? (disk.locate p.temporary) = none
  /-- No directory has gone, and the new ones are those above the path that were missing. -/
  directories : ∀ place, disk'.surface? place = some .directory ↔
    disk.surface? place = some .directory
      ∨ disk.surface? place = none ∧ place <+: (disk.locate p).dropLast

theorem replaced (h : p.isPlain = true)
    (hrun : (replaceFile p content).run disk = (disk', .ok ())) :
    Replaced p disk disk' := by
  obtain ⟨made, result, hmade, hkeeps, hsurface, hread⟩ := replaceFile_ok hrun
  have hgrows := ensureDirectories_grows h hmade
  rw [hgrows.keepsDirectories.locate, hgrows.keepsDirectories.locate] at hsurface
  have hpath : disk'.surface? (disk.locate p) = some (.file content) := by
    rw [hsurface, Function.update_self]
  have hother : ∀ place, place ≠ disk.locate p → place ≠ disk.locate p.temporary →
      disk'.surface? place = made.surface? place := by
    intro place hne hne'
    rw [hsurface, Function.update_of_ne hne, Function.update_of_ne hne']
  refine ⟨⟨content, hread⟩, fun place hne hne' => ?_, fun hne => ?_,
    fun place => ⟨fun hdir => ?_, ?_⟩⟩
  · apply content?_congr
    intro bytes
    rw [hother place hne hne', hgrows.file_iff]
  · rw [← surface?_eq_none_iff, hsurface, Function.update_of_ne, Function.update_self]
    intro heq
    exact hne (eq_of_locate_temporary h heq)
  · -- a directory is neither the file nor what was moved there
    have hne : place ≠ disk.locate p := by
      intro heq
      rw [heq, hpath] at hdir
      cases hdir
    have hne' : place ≠ disk.locate p.temporary := by
      intro heq
      rw [hsurface, Function.update_of_ne hne, heq, Function.update_self] at hdir
      cases hdir
    rw [hother place hne hne'] at hdir
    rcases hgrows.change place with hsame | ⟨hnone, -, hway⟩
    · rw [hsame] at hdir
      exact Or.inl hdir
    · exact Or.inr ⟨hnone, hway⟩
  · rintro (hdir | ⟨-, rest, hway⟩)
    · exact hkeeps.directory (hgrows.keepsDirectories.directory hdir)
    · -- above a file there are directories
      obtain ⟨last, hlast⟩ := exists_locate_eq h disk
      rw [← hway, List.append_assoc] at hlast
      rw [hlast] at hpath
      rcases rest with _ | ⟨name, below⟩
      · have hthere : disk'.surface? (place ++ last :: []) ≠ none := by
          rw [← List.nil_append [last], hpath]
          simp
        exact surface?_above hthere
      · exact surface?_above (by rw [← List.cons_append, hpath]; simp)

/-! ## A replacement that fails -/

/-- What is left of a disk by a replacement that failed. -/
structure Spared (p : Path) (disk disk' : Disk) : Prop where
  /-- The path is what it was: nothing, a file with the same content, or a directory. -/
  path : disk'.surface? (disk.locate p) = disk.surface? (disk.locate p)
  /-- Every other file has the content it had, and there is no new one, but for the temporary
  name. -/
  files : ∀ place, place ≠ disk.locate p.temporary → disk'.content? place = disk.content? place
  /-- Nothing has gone, whether file or directory, but for the temporary name. -/
  kept : ∀ place, place ≠ disk.locate p.temporary → disk.surface? place ≠ none →
    disk'.surface? place = disk.surface? place

theorem Spared.refl (p : Path) (disk : Disk) : Spared p disk disk :=
  ⟨rfl, fun _ _ => rfl, fun _ _ _ => rfl⟩

theorem spared {cause : IoFailure} (h : p.isPlain = true)
    (hrun : (replaceFile p content).run disk = (disk', .error cause)) : Spared p disk disk' := by
  obtain ⟨-, hpath, -⟩ := replaceFile_error_frame h hrun
  obtain ⟨made, result, -, hgrows, -, hcases⟩ := replaceFile_error h hrun
  have hother : ∀ place, place ≠ disk.locate p.temporary →
      disk'.surface? place = made.surface? place := by
    intro place hne
    rcases hcases with rfl | ⟨name, htemporary, -, hdisk'⟩
    · rfl
    · rw [hdisk', ← htemporary, Function.update_of_ne hne]
  refine ⟨hpath, fun place hne => ?_, fun place hne hthere => ?_⟩
  · apply content?_congr
    intro bytes
    rw [hother place hne, hgrows.file_iff]
  · rw [hother place hne]
    exact (hgrows.change place).resolve_right fun hnew => hthere hnew.1

end BootTrust.Disk
