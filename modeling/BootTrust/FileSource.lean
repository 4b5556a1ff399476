import BootTrust.Path
import BootTrust.Stream
import BootTrust.Text.Utf8
/-
Where files come from. Hashing and loading only ever open a file and read it to its end, so all they
need is a `FileSource`: a disk, or files held in memory, or anything else that can open a path.
-/

set_option autoImplicit false

namespace BootTrust

/-- Something that can open files. -/
structure FileSource where
  openFile : Path → Except IoFailure Stream

namespace FileSource

/-- The content of a file. -/
def readBytes (files : FileSource) (p : Path) : Except IoFailure Bytes := do
  (← files.openFile p).readToEnd

/-- The content of a file as a text. -/
def readText (files : FileSource) (p : Path) : Except IoFailure String := do
  match Utf8.decode? (← files.readBytes p) with
  | some text => .ok text
  | none => .error IoFailure.notText

end FileSource

end BootTrust
