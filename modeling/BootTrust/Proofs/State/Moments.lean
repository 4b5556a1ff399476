import BootTrust.Proofs.Configs
import BootTrust.Proofs.Disk.Moments
import BootTrust.Proofs.State.File
/-
No half-written file. Two writers replace a file: the store in a file, and a configuration that is
saved. Neither has a moment at which a reader finds a part of what is written, since both leave the
work to a replacement and have no effects of their own.

One kind of path is apart. A path whose last name has the ending `tmp` is its own temporary path:
there the file itself is cleared before it is written, and a reader who comes then finds an empty
file, which counts as an empty state.
-/

set_option autoImplicit false

namespace BootTrust

variable {p : Path} {disk now : Disk}

/-- Saving a configuration has the effects of the replacement. -/
theorem Config.save_effects (config : Config) (p : Path) (disk : Disk) :
    (config.save p disk).1 = (Disk.replaceFile p config.document.pretty disk).1 := by
  rw [Config.save_eq]

namespace FileState

/-- So has setting a value, if the state can be read. -/
theorem set_effects {values : SortedMap String} (h : read p disk = .ok values)
    (key value : String) :
    (FileState.set p key value disk).1
      = (Disk.replaceFile p (document (MemoryState.set values key value)).pretty disk).1 := by
  rw [set_eq h]

/-- At every moment while a value is set, and at every moment while a configuration is saved, the
content at the path is what it was before, or the new document as a whole. -/
theorem whole_at_every_moment (hplain : p.isPlain = true) (hother : p.temporary ≠ p) (disk : Disk) :
    (∀ key value now, Effect.IsMoment (FileState.set p key value disk).1 disk now →
      now.found? p = disk.found? p
        ∨ ∃ values, read p disk = .ok values
          ∧ now.found? p = some (document (MemoryState.set values key value)).pretty)
    ∧ ∀ (config : Config) now, Effect.IsMoment (config.save p disk).1 disk now →
      now.found? p = disk.found? p ∨ now.found? p = some config.document.pretty := by
  refine ⟨fun key value now hmoment => ?_, fun config now hmoment => ?_⟩
  · rcases hread : read p disk with e | values
    -- a state that cannot be read is left alone
    · have hnone : (FileState.set p key value disk).1 = [] := by
        simp only [FileState.set, hread]
      rw [hnone, Effect.isMoment_nil] at hmoment
      rw [hmoment]
      exact Or.inl rfl
    · rw [set_effects hread] at hmoment
      rcases Disk.replaceFile_moment hplain hother hmoment with hold | hnew
      · exact Or.inl hold.found?_eq
      · exact Or.inr ⟨values, rfl, Disk.found?_eq_some_iff.mpr hnew⟩
  · rw [Config.save_effects] at hmoment
    rcases Disk.replaceFile_moment hplain hother hmoment with hold | hnew
    · exact Or.inl hold.found?_eq
    · exact Or.inr (Disk.found?_eq_some_iff.mpr hnew)

/-! ## A file in the root directory -/

/-- A state with one value. -/
def oneValue : SortedMap String :=
  MemoryState.set .empty "k" "v"

/-- A disk with that state in a file of a given name. -/
def oneFile (name : String) : Disk :=
  ⟨[(name, .file (document oneValue).pretty)], []⟩

theorem read_oneFile (hread : (oneFile p.text).read p = .ok (document oneValue).pretty) :
    read p (oneFile p.text) = .ok oneValue :=
  read_of_document (State.HasSmallKeys.empty.set "k" "v") hread

/-- While another value is set, the disk is met on which the temporary file is empty. -/
theorem isMoment_set_cleared (hread : (oneFile p.text).read p = .ok (document oneValue).pretty)
    (hopening : Disk.ensureDirectories (p.parent?.getD ⟨""⟩) (oneFile p.text) = ([], .ok ()))
    (hwrite : ∀ content, ∃ writing, Disk.write p.temporary content (oneFile p.text) = .ok writing) :
    Effect.IsMoment (FileState.set p "k" "w" (oneFile p.text)).1 (oneFile p.text)
      (Effect.apply (oneFile p.text) (.clear ((oneFile p.text).locate p.temporary))) := by
  obtain ⟨writing, hwriting⟩ := hwrite (document (MemoryState.set oneValue "k" "w")).pretty
  rw [set_effects (read_oneFile hread)]
  exact Disk.isMoment_cleared hopening hwriting

/-- Beside a file `state.json` the temporary file is another one. -/
theorem whole_at_every_moment_cleared :
    (⟨"state.json"⟩ : Path).isPlain = true ∧ (⟨"state.json"⟩ : Path).temporary ≠ ⟨"state.json"⟩
    ∧ ∃ now, now.content? ["state.tmp"] = some []
      ∧ Effect.IsMoment (FileState.set ⟨"state.json"⟩ "k" "w" (oneFile "state.json")).1
          (oneFile "state.json") now
      ∧ (now.found? ⟨"state.json"⟩ = (oneFile "state.json").found? ⟨"state.json"⟩
        ∨ ∃ values, read ⟨"state.json"⟩ (oneFile "state.json") = .ok values
          ∧ now.found? ⟨"state.json"⟩
            = some (document (MemoryState.set values "k" "w")).pretty) := by
  have hplain : (⟨"state.json"⟩ : Path).isPlain = true := by decide +kernel
  have hother : (⟨"state.json"⟩ : Path).temporary ≠ ⟨"state.json"⟩ := by decide +kernel
  have hmoment := isMoment_set_cleared (p := ⟨"state.json"⟩) rfl rfl fun content => ⟨_, rfl⟩
  exact ⟨hplain, hother, _, rfl, hmoment,
    (whole_at_every_moment hplain hother (oneFile "state.json")).1 "k" "w" _ hmoment⟩

/-- A document begins with a brace, so it is not empty. -/
theorem pretty_ne_nil (values : SortedMap String) : (document values).pretty ≠ [] := by
  intro h
  obtain ⟨body, hbody⟩ := Json.print_object .indented 0
    (values.entries.map fun e => (e.1, Json.Document.string e.2))
  rw [document, Json.Document.pretty, hbody] at h
  cases h

/-- At a path that is its own temporary path there is a moment at which the file is empty: it had a
state before, it does not have the new document, and it counts as an empty state. -/
theorem not_whole_at_every_moment :
    ∃ now, (⟨"state.tmp"⟩ : Path).isPlain = true
      ∧ Effect.IsMoment (FileState.set ⟨"state.tmp"⟩ "k" "w" (oneFile "state.tmp")).1
          (oneFile "state.tmp") now
      ∧ now.found? ⟨"state.tmp"⟩ ≠ (oneFile "state.tmp").found? ⟨"state.tmp"⟩
      ∧ (∀ values, now.found? ⟨"state.tmp"⟩ ≠ some (document values).pretty)
      ∧ read ⟨"state.tmp"⟩ (oneFile "state.tmp") = .ok oneValue
      ∧ read ⟨"state.tmp"⟩ now = .ok .empty := by
  have hplain : (⟨"state.tmp"⟩ : Path).isPlain = true := by decide +kernel
  have hmoment := isMoment_set_cleared (p := ⟨"state.tmp"⟩) rfl rfl fun content => ⟨_, rfl⟩
  have hold : (oneFile "state.tmp").read ⟨"state.tmp"⟩ = .ok (document oneValue).pretty := rfl
  have hnow : (Effect.apply (oneFile "state.tmp")
      (.clear ((oneFile "state.tmp").locate (⟨"state.tmp"⟩ : Path).temporary))).read ⟨"state.tmp"⟩
      = .ok [] := rfl
  have hempty := Disk.found?_eq_some_iff.mpr hnow
  have hdifferent : ∀ values, some [] ≠ some (document values).pretty := by
    intro values heq
    exact pretty_ne_nil values (Option.some.inj heq).symm
  refine ⟨_, hplain, hmoment, ?_, fun values => ?_, read_oneFile hold, ?_⟩
  · rw [hempty, Disk.found?_eq_some_iff.mpr hold]
    exact hdifferent oneValue
  · rw [hempty]
    exact hdifferent values
  · have hdecode : Utf8.decode? [] = some "" := Utf8.decode?_encode ""
    have hblank : Text.isAllBlank "" = true := by decide +kernel
    rw [read, hnow]
    simp only [hdecode, parse, hblank, if_true]

end FileState

end BootTrust
