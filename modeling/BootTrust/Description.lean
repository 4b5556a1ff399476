import BootTrust.Config
/-
Descriptions of the parts of a gate for diagnostics, with the names of the members. Only what was
configured is shown; two dots stand for everything that the parts hold besides.
-/

set_option autoImplicit false

namespace BootTrust.Description

/-- A value that may be missing. -/
def optional : Option String → String
  | some s => "Some(" ++ s ++ ")"
  | none => "None"

/-- Members in braces behind a name. -/
def record (name : String) (members : List (String × String)) : String :=
  name ++ " \x7b " ++ String.intercalate ", " (members.map fun (k, v) => k ++ ": " ++ v) ++ " \x7d"

/-- Members in braces behind a name, with a sign that there is more. -/
def partialRecord (name : String) (members : List (String × String)) : String :=
  name ++ " \x7b " ++ String.join (members.map fun (k, v) => k ++ ": " ++ v ++ ", ") ++ ".. \x7d"

def config (c : Config) : String :=
  record "SignedUrlConfig" [
    ("use_signed_url", if c.useSignedUrl then "true" else "false"),
    ("sign_endpoint", optional (c.signEndpoint.map Text.quote)),
    ("seed_path", optional (c.seedPath.map (Text.quote ·.text))),
    ("volume_label", Text.quote c.volumeLabel),
    ("media_relative_path", Text.quote c.mediaRelativePath),
    ("request_timeout_secs", Decimal.naturalText c.timeoutSeconds.toNat)]

def gate (c : Config) : String :=
  partialRecord "TrustGate" [("config", config c)]

def device (c : Config) : String :=
  partialRecord "DeviceIdentity" [("media_relative_path", Text.quote c.mediaRelativePath)]

/-- What hashes files. -/
def hasher : String := partialRecord "ContentHasher" []

/-- What loads seeds. -/
def seeds : String := partialRecord "SeedStore" []

/-- What talks to the signing service. -/
def client : String := partialRecord "SignRequestClient" []

end BootTrust.Description
