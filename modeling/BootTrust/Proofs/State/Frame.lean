import BootTrust.Proofs.Disk.Frame
import BootTrust.Proofs.State.Moments
/-
The frame of the two writers, the store in a file and a configuration that is saved. Both do to a
disk what a replacement does, or nothing: a state that cannot be read is not replaced, and that
counts as a failure. So what is known of a replacement is known of them (`Confined`).

A saved configuration can be loaded, and a save that fails later does not change that: the file is
what it was, and so is what is read from it.
-/

set_option autoImplicit false

namespace BootTrust

namespace Disk

/-- A writer at a path has gone well and changed what a replacement changes, or it has failed and
spared the file and everything around it. -/
structure Confined {ε : Type} (p : Path) (disk : Disk)
    (written : List Effect × Except ε Unit) : Prop where
  ok : written.2 = .ok () → Replaced p disk (Effect.applyAll written.1 disk)
  error : ∀ e, written.2 = .error e → Spared p disk (Effect.applyAll written.1 disk)

variable {ε : Type} {p : Path}

/-- A writer that leaves a replacement to do the work, and only words its failure anew. -/
theorem confined_mapError (h : p.isPlain = true) (content : Bytes) (disk : Disk)
    (wording : IoFailure → ε) :
    Confined p disk
      ((replaceFile p content disk).1, (replaceFile p content disk).2.mapError wording) := by
  rcases hrun : replaceFile p content disk with ⟨effects, cause | ⟨⟩⟩
  · refine ⟨fun hok => ?_, fun _ _ => ?_⟩
    · cases hok
    · have hran : (replaceFile p content).run disk
          = (Effect.applyAll effects disk, .error cause) := by
        rw [Task.run, hrun]
      exact spared h hran
  · refine ⟨fun _ => ?_, fun e herror => ?_⟩
    · have hran : (replaceFile p content).run disk = (Effect.applyAll effects disk, .ok ()) := by
        rw [Task.run, hrun]
      exact replaced h hran
    · cases herror

/-- A writer that fails before it has had an effect. -/
theorem confined_of_nothing (p : Path) (disk : Disk) (e : ε) : Confined p disk ([], .error e) := by
  refine ⟨fun hok => ?_, fun _ _ => Spared.refl p disk⟩
  cases hok

end Disk

variable {p : Path} {disk : Disk}

theorem FileState.confined_set (h : p.isPlain = true) (disk : Disk) (key value : String) :
    Disk.Confined p disk (FileState.set p key value disk) := by
  rcases hread : FileState.read p disk with e | values
  · have hnone : FileState.set p key value disk = ([], .error (.write key e.message)) := by
      simp only [FileState.set, hread]
    rw [hnone]
    exact Disk.confined_of_nothing p disk _
  · rw [FileState.set_eq hread]
    exact Disk.confined_mapError h _ disk _

namespace Config

theorem confined_save (h : p.isPlain = true) (disk : Disk) (config : Config) :
    Disk.Confined p disk (config.save p disk) := by
  rw [save_eq]
  exact Disk.confined_mapError h _ disk _

/-- A configuration that was saved is loaded from where it was saved. -/
theorem load_of_save {config : Config} (hok : (config.save p disk).2 = .ok ()) :
    load (Effect.applyAll (config.save p disk).1 disk) p = .ok config := by
  rw [save_eq] at hok
  rw [save_effects]
  rcases hrun : Disk.replaceFile p config.document.pretty disk with ⟨effects, cause | ⟨⟩⟩
  · rw [hrun] at hok
    cases hok
  · have hran : (Disk.replaceFile p config.document.pretty).run disk
        = (Effect.applyAll effects disk, .ok ()) := by
      rw [Task.run, hrun]
    obtain ⟨-, -, -, -, -, hread⟩ := Disk.replaceFile_ok hran
    exact load_of_read hread

/-- What is loaded from a file depends on what is read there. -/
theorem load_congr {disk' : Disk} (h : disk'.read p = disk.read p) :
    load disk' p = load disk p := by
  rw [load, load, h]

/-- A file that is loaded as a configuration can be read. -/
theorem read_of_load {config : Config} (h : load disk p = .ok config) :
    ∃ bytes, disk.read p = .ok bytes := by
  rcases hread : disk.read p with cause | bytes
  · rw [load, hread] at h
    cases h
  · exact ⟨bytes, rfl⟩

/-- A configuration that can be loaded can be loaded after a save has failed. -/
theorem load_after_error (h : p.isPlain = true) {config later : Config} {e : ConfigError}
    (hload : load disk p = .ok config) (herror : (later.save p disk).2 = .error e) :
    load (Effect.applyAll (later.save p disk).1 disk) p = .ok config := by
  obtain ⟨bytes, hread⟩ := read_of_load hload
  rw [save_eq] at herror
  rw [save_effects]
  rcases hrun : Disk.replaceFile p later.document.pretty disk with ⟨effects, cause | ⟨⟩⟩
  · have hran : (Disk.replaceFile p later.document.pretty).run disk
        = (Effect.applyAll effects disk, .error cause) := by
      rw [Task.run, hrun]
    rw [load_congr ((Disk.read_ok_after_error h hran hread).trans hread.symm), hload]
  · rw [hrun] at herror
    cases herror

end Config

/-- Both writers keep within their frame, whether they go well or fail, and a configuration that was
saved is loaded as it was saved, also after a later save has failed. -/
theorem writers_confined (h : p.isPlain = true) (disk : Disk) :
    (∀ key value, Disk.Confined p disk (FileState.set p key value disk))
    ∧ (∀ config : Config, Disk.Confined p disk (config.save p disk))
    ∧ (∀ saved : Config, (saved.save p disk).2 = .ok () →
      Config.load (Effect.applyAll (saved.save p disk).1 disk) p = .ok saved)
    ∧ ∀ (saved later : Config) e, Config.load disk p = .ok saved →
      (later.save p disk).2 = .error e →
      Config.load (Effect.applyAll (later.save p disk).1 disk) p = .ok saved := by
  refine ⟨fun key value => ?_, fun config => ?_, fun saved => ?_, fun saved later e => ?_⟩
  · exact FileState.confined_set h disk key value
  · exact Config.confined_save h disk config
  · exact Config.load_of_save
  · exact Config.load_after_error h

/-- A configuration beside a directory that has the temporary name of its file. -/
def besideDirectory : Disk :=
  ⟨[("config.json", .file Config.default.document.pretty), ("config.tmp", .directory [])], []⟩

/-- On an empty disk a value is set below a directory that is made for it; beside a directory with
the temporary name a save fails, and what was saved before can still be loaded. -/
theorem writers_confined_blocked :
    (⟨"d/state.json"⟩ : Path).isPlain = true ∧ (⟨"config.json"⟩ : Path).isPlain = true
    ∧ Disk.Replaced ⟨"d/state.json"⟩ .empty
        (Effect.applyAll (FileState.set ⟨"d/state.json"⟩ "k" "v" .empty).1 .empty)
    ∧ ∃ later e, (Config.save later ⟨"config.json"⟩ besideDirectory).2 = .error e
      ∧ Disk.Spared ⟨"config.json"⟩ besideDirectory
          (Effect.applyAll (Config.save later ⟨"config.json"⟩ besideDirectory).1 besideDirectory)
      ∧ Config.load
          (Effect.applyAll (Config.save later ⟨"config.json"⟩ besideDirectory).1 besideDirectory)
          ⟨"config.json"⟩ = .ok Config.default := by
  have hstate : (⟨"d/state.json"⟩ : Path).isPlain = true := by decide +kernel
  have hconfig : (⟨"config.json"⟩ : Path).isPlain = true := by decide +kernel
  have hset : (FileState.set ⟨"d/state.json"⟩ "k" "v" .empty).2 = .ok () := rfl
  have hsave : (Config.save (Config.enabled "e" ⟨"s"⟩) ⟨"config.json"⟩ besideDirectory).2
      = .error (.io ⟨"config.json"⟩ IoFailure.isADirectory) := rfl
  have hload : Config.load besideDirectory ⟨"config.json"⟩ = .ok Config.default :=
    Config.load_of_read rfl
  refine ⟨hstate, hconfig, ?_, Config.enabled "e" ⟨"s"⟩, _, hsave, ?_, ?_⟩
  · exact ((writers_confined hstate .empty).1 "k" "v").ok hset
  · exact ((writers_confined hconfig besideDirectory).2.1 _).error _ hsave
  · exact (writers_confined hconfig besideDirectory).2.2.2 _ _ _ hload hsave

end BootTrust
