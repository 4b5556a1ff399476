import BootTrust.Disk.Tree
import BootTrust.IoFailure
/-
What can happen to a disk, and programs that make it happen. An `Effect` is one change as the disk
sees it. A `Task` looks at the disk, has effects one after the other, and ends well or in a failure;
the effects it had before a failure stay. Keeping the effects as a list, and not only their outcome,
is what lets one speak about the moments between them.
-/

set_option autoImplicit false

namespace BootTrust

inductive Effect where
  /-- A new directory, if nothing is there yet. -/
  | makeDirectory (place : Location)
  /-- A file without content, new or in place of the file that is there. -/
  | clear (place : Location)
  /-- Bytes added at the end of a file. -/
  | append (place : Location) (bytes : Bytes)
  /-- The node at `source` moves to `target`, in place of what is there. -/
  | rename (source target : Location)
  deriving Repr, DecidableEq

namespace Effect

def apply (disk : Disk) : Effect → Disk
  | .makeDirectory place =>
    disk.alter place fun
      | none => some (.directory [])
      | some node => some node
  | .clear place =>
    disk.alter place fun
      | some (.directory entries) => some (.directory entries)
      | _ => some (.file [])
  | .append place bytes =>
    disk.alter place fun
      | some (.file content) => some (.file (content ++ bytes))
      | node => node
  | .rename source target =>
    match disk.find? source with
    | none => disk
    | some node => (disk.alter source fun _ => none).alter target fun _ => some node

def applyAll (effects : List Effect) (disk : Disk) : Disk :=
  effects.foldl apply disk

/-- An effect as single steps: bytes are added one by one. -/
def steps : Effect → List Effect
  | .append place bytes => bytes.map fun b => .append place [b]
  | effect => [effect]

end Effect

/-- A program on a disk: the effects it has on a given disk, and how it ends. -/
def Task (α : Type) := Disk → List Effect × Except IoFailure α

namespace Task

variable {α β : Type}

/-- Ends at once. -/
def done (a : α) : Task α := fun _ => ([], .ok a)

/-- Fails at once. -/
def fail (cause : IoFailure) : Task α := fun _ => ([], .error cause)

/-- One task after another, on the disk that the first one leaves. -/
def andThen (first : Task α) (next : α → Task β) : Task β := fun disk =>
  match first disk with
  | (effects, .error cause) => (effects, .error cause)
  | (effects, .ok a) =>
    let (more, result) := next a (Effect.applyAll effects disk)
    (effects ++ more, result)

instance : Monad Task where
  pure := done
  bind := andThen

/-- A single attempt: effects that the disk allows, or none and a failure. -/
def attempt (call : Disk → Except IoFailure (List Effect)) : Task Unit := fun disk =>
  match call disk with
  | .ok effects => (effects, .ok ())
  | .error cause => ([], .error cause)

/-- The disk that a task leaves, and how it ends. -/
def run (task : Task α) (disk : Disk) : Disk × Except IoFailure α :=
  (Effect.applyAll (task disk).1 disk, (task disk).2)

end Task

end BootTrust
