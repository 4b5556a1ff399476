import BootTrust.Disk.Access
import BootTrust.Json.Printer
import BootTrust.Json.Typed
import BootTrust.State.Store
import BootTrust.Text.Blank
/-
The state in a file: a JSON object of texts. Every request reads the file anew, and setting a value
replaces the whole file, so another process sees either the old state or the new one. A file that is
missing or blank is an empty state; a file that is anything else but a state is an error and is left
alone.
-/

set_option autoImplicit false

namespace BootTrust

open Json

namespace FileState

/-- The state that the text of a file holds. -/
def parse (text : String) : Except StateError (SortedMap String) :=
  if Text.isAllBlank text then .ok .empty
  else
    match readAll textMap (Utf8.encode text) with
    | .ok raw => .ok (State.foldKeys raw)
    | .error cause => .error (.corrupt cause)

/-- The state that the file at a path holds. -/
def read (p : Path) (disk : Disk) : Except StateError (SortedMap String) :=
  match disk.read p with
  | .error cause => if cause.kind = .notFound then .ok .empty else .error (.io cause)
  | .ok bytes =>
    match Utf8.decode? bytes with
    | some text => parse text
    | none => .error (.io IoFailure.notText)

def document (values : SortedMap String) : Document :=
  .object (values.entries.map fun (key, value) => (key, .string value))

def get (p : Path) (disk : Disk) (key : String) : Except StateError (Option String) :=
  match read p disk with
  | .ok values => .ok (MemoryState.get? values key)
  | .error e => .error (.read key e.message)

/-- Sets the value of a key; how the disk changes, and whether it went well. -/
def set (p : Path) (key value : String) (disk : Disk) : List Effect × Except StateError Unit :=
  match read p disk with
  | .error e => ([], .error (.write key e.message))
  | .ok values =>
    match Disk.replaceFile p (document (MemoryState.set values key value)).pretty disk with
    | (effects, .ok ()) => (effects, .ok ())
    | (effects, .error cause) => (effects, .error (.write key (StateError.io cause).message))

/-- The store in the file at a path. -/
def store (p : Path) : StateStore Disk where
  get disk key := get p disk key
  set disk key value :=
    let (effects, outcome) := set p key value disk
    (Effect.applyAll effects disk, outcome)

variable {α : Type}

/-- Runs a program on the file at a path; the effects that this has, and the result. -/
def perform (p : Path) : StateProgram α → Disk → List Effect × α
  | .done result, _ => ([], result)
  | .get key next, disk => perform p (next (get p disk key)) disk
  | .set key value next, disk =>
    let (effects, outcome) := set p key value disk
    let (more, result) := perform p (next outcome) (Effect.applyAll effects disk)
    (effects ++ more, result)

/-- The effects of a program add up to what running it on the store does. -/
theorem run_store (p : Path) (program : StateProgram α) (disk : Disk) :
    program.run (store p) disk
      = (Effect.applyAll (perform p program disk).1 disk, (perform p program disk).2) := by
  induction program generalizing disk with
  | done result => rfl
  | get key next ih => exact ih (get p disk key) disk
  | set key value next ih =>
    simp only [StateProgram.run, store, perform, Effect.applyAll, List.foldl_append]
    exact ih _ _

end FileState

end BootTrust
