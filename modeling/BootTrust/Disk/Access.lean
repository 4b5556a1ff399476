import BootTrust.Disk.Effect
import BootTrust.FileSource
/-
Access to a disk by paths, with the failures of a Linux host. Every component but the last has to
be a directory that is there; the first that is not decides the failure. What the last component
may be depends on the access.
-/

set_option autoImplicit false

namespace BootTrust

/-! ## Following a path -/

/-- How many bytes a name may have. -/
def nameLimit : Nat := 255

/-- How many bytes a path may have, with the zero byte at its end. -/
def pathLimit : Nat := 4096

/-- Refuses a path that the system cannot even be asked about: one with a zero byte or one that is
too long. -/
def Path.check (p : Path) : Except IoFailure Unit :=
  if p.text.toList.contains '\x00' then .error IoFailure.zeroInName
  else if pathLimit ≤ (Utf8.encode p.text).length then .error IoFailure.nameTooLong
  else .ok ()

/-- The location to which one component leads, whatever is there. -/
def Location.follow (place : Location) : Component → Location
  | .root => []
  | .here => place
  | .up => place.dropLast
  | .name s => place ++ [s]

namespace Disk

/-- The location that a path speaks of, whatever is there. -/
def locate (disk : Disk) (p : Path) : Location :=
  p.components.foldl Location.follow disk.here

/-- Refuses a name that is too long. -/
def checkName (name : String) : Except IoFailure Unit :=
  if nameLimit < (Utf8.encode name).length then .error IoFailure.nameTooLong else .ok ()

/-- The directory to which one component leads from the directory at `place`. -/
def enter (disk : Disk) (place : Location) : Component → Except IoFailure Location
  | .root => .ok []
  | .here => .ok place
  | .up => .ok place.dropLast
  | .name s => do
    checkName s
    match disk.find? (place ++ [s]) with
    | none => .error IoFailure.missing
    | some (.file _) => .error IoFailure.notADirectory
    | some (.directory _) => .ok (place ++ [s])

/-- Where components start from. Those without the root at their front start from the directory of
relative paths, which has to be there still. -/
def start (disk : Disk) : List Component → Except IoFailure Location
  | .root :: _ => .ok []
  | _ =>
    match disk.find? disk.here with
    | some (.directory _) => .ok disk.here
    | _ => .error IoFailure.missing

/-- The directory to which components lead. -/
def walk (disk : Disk) (components : List Component) : Except IoFailure Location := do
  components.foldlM disk.enter (← disk.start components)

/-- Where a path leads. -/
inductive Target where
  /-- A name in a directory; there may be nothing of that name. -/
  | entry (place : Location)
  /-- A directory that no name at the end of the path stands for. -/
  | directory (place : Location)

/-- Where components lead. -/
def target (disk : Disk) (components : List Component) : Except IoFailure Target :=
  match components.getLast? with
  | none => .error IoFailure.missing
  | some (.name s) => do
    let place ← disk.walk components.dropLast
    checkName s
    return .entry (place ++ [s])
  | some _ => .directory <$> disk.walk components

/-- Where a path leads. -/
def resolve (disk : Disk) (p : Path) : Except IoFailure Target := do
  p.check
  disk.target p.components

/-- Whether a path leads to a directory. -/
def isDirectoryAt (disk : Disk) (p : Path) : Bool :=
  match disk.resolve p with
  | .ok (.entry place) => (disk.find? place).any Node.isDirectory
  | .ok (.directory _) => true
  | .error _ => false

/-! ## Reading -/

/-- The content of the file at a path. -/
def read (disk : Disk) (p : Path) : Except IoFailure Bytes := do
  match ← disk.resolve p with
  | .directory _ => .error IoFailure.isADirectory
  | .entry place =>
    match disk.find? place with
    | none => .error IoFailure.missing
    | some (.directory _) => .error IoFailure.isADirectory
    | some (.file content) => if p.endsOpen then .error IoFailure.notADirectory else .ok content

/-! ## Writing -/

/-- Makes one directory, which must not be there. -/
def makeDirectory (p : Path) (disk : Disk) : Except IoFailure (List Effect) := do
  match ← disk.resolve p with
  | .directory _ => .error IoFailure.fileExists
  | .entry place =>
    if (disk.find? place).isSome then .error IoFailure.fileExists else .ok [.makeDirectory place]

/-- Makes one directory unless it is there. -/
def ensureDirectory (p : Path) (disk : Disk) : Except IoFailure (List Effect) :=
  match makeDirectory p disk with
  | .ok effects => .ok effects
  | .error cause => if disk.isDirectoryAt p then .ok [] else .error cause

/-- Makes a directory and those above it that are missing. The parts of its path are given from the
last one on, since the directory itself is tried first and those above it only if it cannot be
reached. -/
def ensureBelow : (reversed : List (List Char)) → Task Unit
  | [] => .done ()
  | part :: above => fun disk =>
    if Component.isIdle part && above ≠ [] then ensureBelow above disk
    else
      let p := Path.ofParts (part :: above).reverse
      match ensureDirectory p disk with
      | .ok effects => (effects, .ok ())
      | .error cause =>
        if cause.kind = .notFound then
          Task.andThen (ensureBelow above) (fun _ => Task.attempt (ensureDirectory p)) disk
        else ([], .error cause)

/-- Makes the directory at a path and those above it that are missing; an empty path asks for
none. -/
def ensureDirectories (p : Path) : Task Unit :=
  if p.isEmpty then .done () else ensureBelow p.parts.reverse

/-- Writes a file, new or in place of its content. -/
def write (p : Path) (content : Bytes) (disk : Disk) : Except IoFailure (List Effect) := do
  match ← disk.resolve p with
  | .directory _ => .error IoFailure.isADirectory
  | .entry place =>
    match disk.find? place with
    | some (.directory _) => .error IoFailure.isADirectory
    | _ => .ok [.clear place, .append place content]

/-- Moves a file to the path `p`, in place of a file that is there. -/
def rename (source p : Path) (disk : Disk) : Except IoFailure (List Effect) := do
  match ← disk.resolve source, ← disk.resolve p with
  | .entry old, .entry new =>
    if p.endsInDot then
      -- the end of the path is a directory's own name for itself, which cannot be given away
      let _ ← disk.walk p.components
      .error IoFailure.busy
    else if p.endsOpen then .error IoFailure.notADirectory
    else if (disk.find? new).any Node.isDirectory then .error IoFailure.isADirectory
    else .ok [.rename old new]
  | _, _ => .error IoFailure.busy

/-- Replaces the file at a path as a whole. The directories above it are made, the content is
written under another name beside it, and only when it is complete does it take the place of the
file. -/
def replaceFile (p : Path) (content : Bytes) : Task Unit := do
  ensureDirectories (p.parent?.getD ⟨""⟩)
  Task.attempt (write p.temporary content)
  Task.attempt (rename p.temporary p)

/-- A disk as a source of files. A directory can be opened like a file, it only cannot be read, so
there the failure comes with the first read. -/
def source (disk : Disk) : FileSource where
  openFile p :=
    match disk.read p with
    | .ok content => .ok (.ofBytes content)
    | .error cause =>
      if cause = IoFailure.isADirectory then .ok [.failed IoFailure.isADirectory] else .error cause

end Disk

end BootTrust
