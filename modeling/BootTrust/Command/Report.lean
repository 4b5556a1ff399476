import BootTrust.Command.Failure
import BootTrust.Json.Printer
/-
What a command prints. With JSON output everything, a failure included, is one object on
the standard output; in words a failure goes to the error output, with the failures behind
it on lines of their own.
-/

set_option autoImplicit false

namespace BootTrust.Command

open Json

/-- What a command found out. -/
inductive Outcome where
  | decision (required : Bool)
  | signedUrl (resource signedUrl : String)
  | hash (path hash : String)
  | volume (label drive mediaPath : String)

/-- What a run leaves for its caller. -/
structure Report where
  exitCode : Nat
  output : Bytes
  errors : String

namespace Report

/-- An object on several lines, its members sorted by name, and the end of the last line. -/
def jsonBytes (members : List (String × Document)) : Bytes :=
  (Value.ofDocument (.object members)).document.pretty ++ [0x0A]

/-- What was found out, as an object. -/
def outcomeMembers : Outcome → List (String × Document)
  | .decision required => [("success", .bool true), ("required", .bool required)]
  | .signedUrl resource signedUrl =>
    [("success", .bool true), ("resource", .string resource), ("signed_url", .string signedUrl)]
  | .hash path hash => [("success", .bool true), ("path", .string path), ("hash", .string hash)]
  | .volume label drive mediaPath =>
    [("success", .bool true), ("label", .string label), ("drive", .string drive),
      ("media_path", .string mediaPath)]

/-- What was found out, in words. -/
def outcomeText : Outcome → String
  | .decision true => "Signed URLs: required\n"
  | .decision false => "Signed URLs: not required\n"
  | .signedUrl resource signedUrl => "Verified: " ++ resource ++ "\n  " ++ signedUrl ++ "\n"
  | .hash path hash => hash ++ "  " ++ path ++ "\n"
  | .volume label drive mediaPath =>
    "Volume: " ++ label ++ " on " ++ drive ++ "\n  Boot image: " ++ mediaPath ++ "\n"

def failureMembers (failure : Failure) : List (String × Document) :=
  let reason : Document :=
    match failure.reason? with
    | some reason => .string reason.text
    | none => .null
  [("success", .bool false),
    ("error", .object [
      ("message", .string failure.message),
      ("type", .string failure.typeName),
      ("reason", reason)])]

def failureText (failure : Failure) : String :=
  "Error: " ++ failure.message ++ "\n"
    ++ String.join (failure.sources.map fun source => "  Caused by: " ++ source ++ "\n")

def ofResult (json : Bool) : Except Failure Outcome → Report
  | .ok outcome =>
    ⟨0, if json then jsonBytes (outcomeMembers outcome) else Utf8.encode (outcomeText outcome), ""⟩
  | .error failure =>
    if json then ⟨failure.exitCode, jsonBytes (failureMembers failure), ""⟩
    else ⟨failure.exitCode, [], failureText failure⟩

end Report

end BootTrust.Command
