import BootTrust.Proofs.State.Frame
/-
Saving a configuration and loading it are inverse to each other, wherever a save goes
through. No condition is asked of the path, which may go up and down and may have the
temporary name of its own file.

That what was saved is loaded comes from the replacement of a file. What is new here is a second
replacement at the same path (`Disk.replaceFile_again`). It cannot fail, because all that the
first one needed is still there: the directory that it made or found, the temporary name, which is
free or is the file itself, and the file. And with the same content it leaves a disk on which
nothing is seen to have changed.
-/

set_option autoImplicit false

namespace BootTrust

/-! ## Tasks that go well -/

namespace Task

variable {α β : Type} {first : Task α} {next : α → Task β} {disk disk' : Disk}

/-- Tasks in a row go well if each of them does, on the disk that the one before it leaves. -/
theorem run_andThen_eq_ok_iff {b : β} : (first.andThen next).run disk = (disk', .ok b)
    ↔ ∃ made a, first.run disk = (made, .ok a) ∧ (next a).run made = (disk', .ok b) := by
  rcases hfirst : first disk with ⟨effects, cause | a⟩
  · simp [run, andThen_error next hfirst, hfirst]
  · simp only [run, andThen_ok next hfirst, hfirst, Effect.applyAll_append, Prod.mk.injEq,
      Except.ok.injEq]
    constructor
    · rintro ⟨hdisk, hb⟩
      exact ⟨_, a, ⟨rfl, rfl⟩, hdisk, hb⟩
    · rintro ⟨_, _, ⟨rfl, rfl⟩, hdisk, hb⟩
      exact ⟨hdisk, hb⟩

theorem run_attempt_eq_ok_iff {call : Disk → Except IoFailure (List Effect)} :
    (attempt call).run disk = (disk', .ok ())
      ↔ ∃ effects, call disk = .ok effects ∧ Effect.applyAll effects disk = disk' := by
  rcases hcall : call disk with cause | effects
  · simp [run, attempt_error hcall]
  · simp [run, attempt_ok hcall]

/-- A task that has nothing to do. -/
theorem run_of_nothing {task : Task α} {a : α} (h : task disk = ([], .ok a)) :
    task.run disk = (disk, .ok a) := by
  rw [run, h]
  rfl

end Task

namespace Disk

variable {disk disk' made : Disk} {p : Path}

/-! ## Directories that are there -/

/-- A directory stays one while no directory goes away. -/
theorem KeepsDirectories.isDirectoryAt (keeps : KeepsDirectories disk disk')
    (h : disk.isDirectoryAt p = true) : disk'.isDirectoryAt p = true := by
  unfold Disk.isDirectoryAt at h ⊢
  rcases hres : disk.resolve p with cause | ⟨place⟩ | ⟨place⟩
  · simp only [hres, Bool.false_eq_true] at h
  · simp only [hres] at h
    simp only [keeps.resolve hres]
    rcases hfind : disk.find? place with _ | content | entries
    · simp [hfind] at h
    · simp [hfind, Node.isDirectory] at h
    · obtain ⟨entries', hfind'⟩ := keeps.find? hfind
      rw [hfind']
      rfl
  · simp only [keeps.resolve hres]

/-- Nothing has to be done for a directory that is there. -/
theorem ensureDirectory_of_isDirectoryAt (h : disk.isDirectoryAt p = true) :
    ensureDirectory p disk = .ok [] := by
  unfold ensureDirectory
  rcases hmake : makeDirectory p disk with cause | effects
  · simp only [h, if_true]
  · obtain ⟨hentry, hnone, -⟩ := makeDirectory_ok hmake
    obtain ⟨place | place, hres, hmake⟩ := Steps.bind_eq_ok_iff.mp hmake
    · obtain ⟨rfl, -⟩ := resolve_entry hres
      rw [Disk.isDirectoryAt, hres] at h
      simp [surface?_eq_none_iff.mp hnone] at h
    · cases hmake

/-- A directory that was made is there, and no directory went away for it. -/
theorem isDirectoryAt_of_makeDirectory {effects : List Effect}
    (h : makeDirectory p disk = .ok effects) :
    (Effect.applyAll effects disk).isDirectoryAt p = true := by
  obtain ⟨hentry, hnone, rfl⟩ := makeDirectory_ok h
  obtain ⟨place | place, hres, hmake⟩ := Steps.bind_eq_ok_iff.mp h
  · obtain ⟨rfl, -⟩ := resolve_entry hres
    have hkeeps := (grows_makeDirectory hentry hnone List.prefix_rfl).keepsDirectories
    have hthere : (Effect.apply disk (.makeDirectory (disk.locate p))).surface? (disk.locate p)
        = some .directory := by
      rw [Effect.surface?_makeDirectory hentry hnone, Function.update_self]
    obtain ⟨entries, hfind⟩ := surface?_eq_directory_iff.mp hthere
    rw [Effect.applyAll_singleton, Disk.isDirectoryAt, hkeeps.resolve hres]
    simp only [hfind]
    rfl
  · cases hmake

/-- A directory that was to be there is there, whether it was made or not. -/
theorem isDirectoryAt_of_ensureDirectory {effects : List Effect}
    (h : ensureDirectory p disk = .ok effects) :
    (Effect.applyAll effects disk).isDirectoryAt p = true := by
  unfold ensureDirectory at h
  split at h
  · next made hmake =>
    cases h
    exact isDirectoryAt_of_makeDirectory hmake
  · split at h
    · next hthere =>
      cases h
      exact hthere
    · cases h

/-- Directories that were made or found are found again, as long as none goes away. -/
theorem ensureBelow_again {reversed : List (List Char)}
    (hrun : (ensureBelow reversed).run disk = (made, .ok ()))
    (keeps : KeepsDirectories made disk') : ensureBelow reversed disk' = ([], .ok ()) := by
  induction reversed generalizing disk made with
  | nil => rfl
  | cons part above ih =>
    rw [Task.run] at hrun
    simp only [ensureBelow] at hrun ⊢
    split at hrun
    · next hidle =>
      rw [if_pos hidle]
      exact ih hrun keeps
    · next hidle =>
      rw [if_neg hidle]
      -- in the end the directory itself is there, whatever had to be made above it
      have hthere : made.isDirectoryAt (Path.ofParts (part :: above).reverse) = true := by
        split at hrun
        · next effects hensure =>
          rw [← (Prod.mk.inj hrun).1]
          exact isDirectoryAt_of_ensureDirectory hensure
        · split at hrun
          · obtain ⟨before, ⟨⟩, -, hlast⟩ := Task.run_andThen_eq_ok_iff.mp hrun
            obtain ⟨effects, hensure, rfl⟩ := Task.run_attempt_eq_ok_iff.mp hlast
            exact isDirectoryAt_of_ensureDirectory hensure
          · cases (Prod.mk.inj hrun).2
      simp only [ensureDirectory_of_isDirectoryAt (keeps.isDirectoryAt hthere)]

theorem ensureDirectories_again (hrun : (ensureDirectories p).run disk = (made, .ok ()))
    (keeps : KeepsDirectories made disk') : ensureDirectories p disk' = ([], .ok ()) := by
  unfold ensureDirectories at hrun ⊢
  split at hrun
  · next hempty =>
    rw [if_pos hempty]
    rfl
  · next hempty =>
    rw [if_neg hempty]
    exact ensureBelow_again hrun keeps

/-! ## A second replacement -/

/-- Writing goes through where it has what it needs. -/
theorem write_eq_ok {content : Bytes} (hres : disk.resolve p = .ok (.entry (disk.locate p)))
    (hdir : disk.surface? (disk.locate p) ≠ some .directory) :
    write p content disk = .ok [.clear (disk.locate p), .append (disk.locate p) content] := by
  refine Steps.bind_eq_ok_iff.mpr ⟨_, hres, ?_⟩
  simp only
  split
  · next entries hfind => exact absurd (surface?_eq_directory_iff.mpr ⟨entries, hfind⟩) hdir
  · rfl

/-- The three steps of a replacement that goes well. -/
theorem replaceFile_run_eq_ok_iff {content : Bytes} :
    (replaceFile p content).run disk = (disk', .ok ())
      ↔ ∃ made, (ensureDirectories (p.parent?.getD ⟨""⟩)).run disk = (made, .ok ())
        ∧ ∃ writing, write p.temporary content made = .ok writing
        ∧ ∃ moving, rename p.temporary p (Effect.applyAll writing made) = .ok moving
          ∧ Effect.applyAll moving (Effect.applyAll writing made) = disk' := by
  have hbind : replaceFile p content = (ensureDirectories (p.parent?.getD ⟨""⟩)).andThen fun _ =>
      (Task.attempt (write p.temporary content)).andThen fun _ =>
        Task.attempt (rename p.temporary p) := rfl
  rw [hbind, Task.run_andThen_eq_ok_iff]
  constructor
  · rintro ⟨made, ⟨⟩, hmade, hrest⟩
    obtain ⟨written, ⟨⟩, hwrite, hmove⟩ := Task.run_andThen_eq_ok_iff.mp hrest
    obtain ⟨writing, hwriting, rfl⟩ := Task.run_attempt_eq_ok_iff.mp hwrite
    exact ⟨made, hmade, writing, hwriting, Task.run_attempt_eq_ok_iff.mp hmove⟩
  · rintro ⟨made, hmade, writing, hwriting, hmove⟩
    refine ⟨made, (), hmade,
      Task.run_andThen_eq_ok_iff.mpr ⟨Effect.applyAll writing made, (), ?_, ?_⟩⟩
    · exact Task.run_attempt_eq_ok_iff.mpr ⟨writing, hwriting, rfl⟩
    · exact Task.run_attempt_eq_ok_iff.mpr hmove

/-- A file that is there is replaced if its directory is there and a file can be written at the
temporary name. -/
theorem replaceFile_of_read {content : Bytes} (hread : disk.read p = .ok content)
    (hparent : ensureDirectories (p.parent?.getD ⟨""⟩) disk = ([], .ok ()))
    (htemp : disk.resolve p.temporary = .ok (.entry (disk.locate p.temporary)))
    (hdir : disk.surface? (disk.locate p.temporary) ≠ some .directory) (content' : Bytes) :
    ∃ disk', (replaceFile p content').run disk = (disk', .ok ()) := by
  obtain ⟨hpath, hfile, hopen⟩ := read_eq_ok_iff.mp hread
  have hwrite := @write_eq_ok _ _ content' htemp hdir
  have hwritten := surface?_write hwrite
  generalize
    [Effect.clear (disk.locate p.temporary), .append (disk.locate p.temporary) content'] = writing
    at hwrite hwritten
  have hstays : KeepsDirectories disk (Effect.applyAll writing disk) :=
    KeepsDirectories.of_update (Effect.here_applyAll _ _) hdir hwritten
  have hrename : rename p.temporary p (Effect.applyAll writing disk)
      = .ok [.rename ((Effect.applyAll writing disk).locate p.temporary)
          ((Effect.applyAll writing disk).locate p)] := by
    refine rename_eq_ok ?_ ?_ hopen ?_
    · rw [hstays.locate]
      exact hstays.resolve htemp
    · rw [hstays.locate]
      exact hstays.resolve hpath
    · rw [hstays.locate, hwritten]
      by_cases heq : disk.locate p = disk.locate p.temporary
      · rw [heq, Function.update_self]
        simp
      · rw [Function.update_of_ne heq, hfile]
        simp
  exact ⟨_, replaceFile_run_eq_ok_iff.mpr
    ⟨disk, Task.run_of_nothing hparent, writing, hwrite, _, hrename, rfl⟩⟩

/-- Where a file was replaced it can be replaced again, with any content. That changes the file and
is seen nowhere else, since the temporary name is free, or is that of the file. -/
theorem replaceFile_again {content : Bytes}
    (hrun : (replaceFile p content).run disk = (disk', .ok ())) (content' : Bytes) :
    ∃ disk'', (replaceFile p content').run disk' = (disk'', .ok ())
      ∧ disk''.surface?
        = Function.update disk'.surface? (disk'.locate p) (some (.file content')) := by
  obtain ⟨made, hmade, writing, hwrite, -⟩ := replaceFile_run_eq_ok_iff.mp hrun
  obtain ⟨made', outcome, hmade', hkeeps, hsurface, hread⟩ := replaceFile_ok hrun
  obtain ⟨rfl, rfl⟩ := Prod.mk.inj (hmade'.symm.trans hmade)
  have hparent := ensureDirectories_again hmade hkeeps
  -- the temporary name still leads to a place where a file can be
  have htemp : disk'.resolve p.temporary = .ok (.entry (disk'.locate p.temporary)) := by
    rw [hkeeps.locate]
    exact hkeeps.resolve (write_ok hwrite).1
  have hfree : disk'.locate p.temporary ≠ disk'.locate p →
      disk'.surface? (disk'.locate p.temporary) = none := by
    intro hne
    rw [hkeeps.locate, hkeeps.locate] at hne
    rw [hsurface, hkeeps.locate, Function.update_of_ne hne, Function.update_self]
  have hdir : disk'.surface? (disk'.locate p.temporary) ≠ some .directory := by
    by_cases heq : disk'.locate p.temporary = disk'.locate p
    · rw [heq, (read_eq_ok_iff.mp hread).2.1]
      simp
    · rw [hfree heq]
      simp
  obtain ⟨disk'', hrun'⟩ := replaceFile_of_read hread hparent htemp hdir content'
  refine ⟨disk'', hrun', ?_⟩
  obtain ⟨made'', outcome', hmade'', -, hsurface', -⟩ := replaceFile_ok hrun'
  obtain ⟨rfl, -⟩ := Prod.mk.inj (hmade''.symm.trans (Task.run_of_nothing hparent))
  rw [hsurface']
  by_cases heq : made''.locate p.temporary = made''.locate p
  · rw [heq, Function.update_idem]
  · have hsame : Function.update made''.surface? (made''.locate p.temporary) none
        = made''.surface? :=
      Function.update_eq_self_iff.mpr (hfree heq).symm
    rw [hsame]

end Disk

/-! ## Configurations -/

namespace Config

variable {p : Path} {disk : Disk}

/-- The disk that saving a configuration leaves. -/
def saved (config : Config) (p : Path) (disk : Disk) : Disk :=
  Effect.applyAll (config.save p disk).1 disk

/-- Saving goes well where the replacement does. -/
theorem replaceFile_of_save {config : Config} (hok : (config.save p disk).2 = .ok ()) :
    (Disk.replaceFile p config.document.pretty).run disk = (config.saved p disk, .ok ()) := by
  rw [save_eq] at hok
  rw [saved, save_effects, Task.run, ← Steps.mapError_eq_ok_iff.mp hok]

theorem save_of_replaceFile {config : Config} {disk' : Disk}
    (hrun : (Disk.replaceFile p config.document.pretty).run disk = (disk', .ok ())) :
    (config.save p disk).2 = .ok () ∧ config.saved p disk = disk' := by
  rw [Task.run, Prod.mk.injEq] at hrun
  constructor
  · rw [save_eq, hrun.2]
    rfl
  · rw [saved, save_effects, hrun.1]

/-- A configuration that was saved is what is loaded from there, and whoever saves what was loaded
succeeds and changes nothing: the file has the bytes that it had, and all the rest of the disk looks
as it did. -/
theorem load_save (config : Config) (hok : (config.save p disk).2 = .ok ()) :
    load (config.saved p disk) p = .ok config
    ∧ ∃ bytes, (config.saved p disk).read p = .ok bytes
      ∧ ∀ loaded, load (config.saved p disk) p = .ok loaded →
        (loaded.save p (config.saved p disk)).2 = .ok ()
        ∧ (loaded.saved p (config.saved p disk)).read p = .ok bytes
        ∧ (loaded.saved p (config.saved p disk)).surface? = (config.saved p disk).surface? := by
  have hload : load (config.saved p disk) p = .ok config := load_of_save hok
  have hrun := replaceFile_of_save hok
  obtain ⟨-, -, -, -, -, hread⟩ := Disk.replaceFile_ok hrun
  refine ⟨hload, _, hread, fun loaded hloaded => ?_⟩
  obtain rfl : config = loaded := Except.ok.inj (hload.symm.trans hloaded)
  obtain ⟨disk'', hrun', hsurface⟩ := Disk.replaceFile_again hrun config.document.pretty
  obtain ⟨hsave, hsaved⟩ := save_of_replaceFile hrun'
  obtain ⟨-, -, -, -, -, hread'⟩ := Disk.replaceFile_ok hrun'
  have hfile := (Disk.read_eq_ok_iff.mp hread).2.1
  rw [hsaved, hsurface, ← hfile, Function.update_eq_self]
  exact ⟨hsave, hread', rfl⟩

/-- A configuration with nothing plain about it, at a path that is its own temporary path and below
a directory that is not there yet. -/
theorem load_save_temporary :
    ∃ config : Config, config.seedPath = some ⟨""⟩ ∧ config.timeoutSeconds = 18446744073709551615
    ∧ (⟨"new/../config.tmp"⟩ : Path).temporary = ⟨"new/../config.tmp"⟩
    ∧ (config.save ⟨"new/../config.tmp"⟩ .empty).2 = .ok ()
    ∧ load (config.saved ⟨"new/../config.tmp"⟩ .empty) ⟨"new/../config.tmp"⟩ = .ok config := by
  let config : Config := {
    useSignedUrl := true
    signEndpoint := none
    seedPath := some ⟨""⟩
    volumeLabel := "\x00\"\\\x7fé😀"
    mediaRelativePath := ""
    timeoutSeconds := 18446744073709551615 }
  have hsave : (config.save ⟨"new/../config.tmp"⟩ .empty).2 = .ok () := rfl
  exact ⟨config, rfl, rfl, by decide +kernel, hsave, (load_save config hsave).1⟩

end Config

end BootTrust
