/-
Why an access to a file failed. The operating system reports a number; a failure found by the
program itself has a kind, and may carry words of its own. `IoFailure.kind` sorts both, because what
a caller does next depends on the kind alone: a missing file is often no failure at all.
-/

set_option autoImplicit false

namespace BootTrust

/-- What sort of failure an access met. -/
inductive IoKind where
  | notFound
  | permissionDenied
  | alreadyExists
  | notADirectory
  | isADirectory
  | invalidFilename
  | invalidInput
  | invalidData
  | unexpectedEof
  | other
  | uncategorized
  deriving DecidableEq, Repr

/-- The words for a failure of which only the kind is known. -/
def IoKind.message : IoKind → String
  | .notFound => "entity not found"
  | .permissionDenied => "permission denied"
  | .alreadyExists => "entity already exists"
  | .notADirectory => "not a directory"
  | .isADirectory => "is a directory"
  | .invalidFilename => "invalid filename"
  | .invalidInput => "invalid input parameter"
  | .invalidData => "invalid data"
  | .unexpectedEof => "unexpected end of file"
  | .other => "other error"
  | .uncategorized => "uncategorized error"

inductive IoFailure where
  /-- The operating system refused, with its error number. -/
  | os (code : Int)
  | bare (kind : IoKind)
  /-- The kind, and words that say more. -/
  | described (kind : IoKind) (message : String)
  deriving DecidableEq, Repr

namespace IoFailure

/-! ## Numbers of the operating system -/

/-- The words of a Linux host for its error numbers, from 0 on; an empty text stands for a number
that has none. -/
def osTexts : List String := [
  "Success", "Operation not permitted", "No such file or directory", "No such process",
  "Interrupted system call", "Input/output error", "No such device or address",
  "Argument list too long", "Exec format error", "Bad file descriptor", "No child processes",
  "Resource temporarily unavailable", "Cannot allocate memory", "Permission denied", "Bad address",
  "Block device required", "Device or resource busy", "File exists", "Invalid cross-device link",
  "No such device", "Not a directory", "Is a directory", "Invalid argument",
  "Too many open files in system", "Too many open files", "Inappropriate ioctl for device",
  "Text file busy", "File too large", "No space left on device", "Illegal seek",
  "Read-only file system", "Too many links", "Broken pipe", "Numerical argument out of domain",
  "Numerical result out of range", "Resource deadlock avoided", "File name too long",
  "No locks available", "Function not implemented", "Directory not empty",
  "Too many levels of symbolic links", "", "No message of desired type", "Identifier removed",
  "Channel number out of range", "Level 2 not synchronized", "Level 3 halted", "Level 3 reset",
  "Link number out of range", "Protocol driver not attached", "No CSI structure available",
  "Level 2 halted", "Invalid exchange", "Invalid request descriptor", "Exchange full", "No anode",
  "Invalid request code", "Invalid slot", "", "Bad font file format", "Device not a stream",
  "No data available", "Timer expired", "Out of streams resources", "Machine is not on the network",
  "Package not installed", "Object is remote", "Link has been severed", "Advertise error",
  "Srmount error", "Communication error on send", "Protocol error", "Multihop attempted",
  "RFS specific error", "Bad message", "Value too large for defined data type",
  "Name not unique on network", "File descriptor in bad state", "Remote address changed",
  "Can not access a needed shared library", "Accessing a corrupted shared library",
  ".lib section in a.out corrupted", "Attempting to link in too many shared libraries",
  "Cannot exec a shared library directly", "Invalid or incomplete multibyte or wide character",
  "Interrupted system call should be restarted", "Streams pipe error", "Too many users",
  "Socket operation on non-socket", "Destination address required", "Message too long",
  "Protocol wrong type for socket", "Protocol not available", "Protocol not supported",
  "Socket type not supported", "Operation not supported", "Protocol family not supported",
  "Address family not supported by protocol", "Address already in use",
  "Cannot assign requested address", "Network is down", "Network is unreachable",
  "Network dropped connection on reset", "Software caused connection abort",
  "Connection reset by peer", "No buffer space available",
  "Transport endpoint is already connected", "Transport endpoint is not connected",
  "Cannot send after transport endpoint shutdown", "Too many references: cannot splice",
  "Connection timed out", "Connection refused", "Host is down", "No route to host",
  "Operation already in progress", "Operation now in progress", "Stale file handle",
  "Structure needs cleaning", "Not a XENIX named type file", "No XENIX semaphores available",
  "Is a named type file", "Remote I/O error", "Disk quota exceeded", "No medium found",
  "Wrong medium type", "Operation canceled", "Required key not available", "Key has expired",
  "Key has been revoked", "Key was rejected by service", "Owner died", "State not recoverable",
  "Operation not possible due to RF-kill", "Memory page has hardware error"
]

def osText (code : Int) : String :=
  match (if 0 ≤ code then osTexts[code.toNat]? else none) with
  | none | some "" => "Unknown error " ++ toString code
  | some text => text

/-- No such file or directory. -/
abbrev missing : IoFailure := .os 2

/-- A call was broken off before it did anything, and has to be repeated. -/
abbrev interrupted : IoFailure := .os 4

/-- A file cannot be given a name that a directory has for itself. -/
abbrev busy : IoFailure := .os 16

/-- A file stands where a directory is to be created. -/
abbrev fileExists : IoFailure := .os 17

/-- A path goes on below a file. -/
abbrev notADirectory : IoFailure := .os 20

/-- A directory stands where a file is to be read or written. -/
abbrev isADirectory : IoFailure := .os 21

/-- A name or a path is longer than the system allows. -/
abbrev nameTooLong : IoFailure := .os 36

/-! ## Failures found by the program -/

/-- The bytes of a file are no text. -/
abbrev notText : IoFailure := .described .invalidData "stream did not contain valid UTF-8"

/-- A path holds a zero byte, which ends a name for the operating system. -/
abbrev zeroInName : IoFailure :=
  .described .invalidInput "file name contained an unexpected NUL byte"

/-! ## What a failure is and says -/

def kind : IoFailure → IoKind
  | .os 1 | .os 13 => .permissionDenied
  | .os 2 => .notFound
  | .os 17 => .alreadyExists
  | .os 20 => .notADirectory
  | .os 21 => .isADirectory
  | .os 22 => .invalidInput
  | .os 36 => .invalidFilename
  | .os _ => .uncategorized
  | .bare k => k
  | .described k _ => k

def message : IoFailure → String
  | .os code => osText code ++ " (os error " ++ toString code ++ ")"
  | .bare k => k.message
  | .described _ text => text

example : message missing = "No such file or directory (os error 2)" := by decide

end IoFailure

end BootTrust
