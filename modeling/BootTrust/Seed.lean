import BootTrust.FileSource
import BootTrust.Json.Printer
import BootTrust.Json.Record
/-
The trust seed: a credential that the signing service knows, with its signature. It is a JSON record
on the provisioning media; its value is passed on as it is and only has to be there.
-/

set_option autoImplicit false

namespace BootTrust

open Json

/-- A credential and its signature. -/
structure Seed where
  value : Value
  signature : String

namespace Seed

/-- What has been read of a seed. -/
structure Draft where
  value : Option Value
  signature : Option String

def shape : Shape Draft Seed where
  name := "struct Seed"
  slots := [
    .of "Seed" false (Json.value memberDepth) Draft.value fun d v => { d with value := some v },
    .of "Signature" false Json.text Draft.signature fun d s => { d with signature := some s }
  ]
  blank := ⟨none, none⟩
  finish d :=
    match d.value, d.signature with
    | none, _ => .error "Seed"
    | _, none => .error "Signature"
    | some value, some signature => .ok ⟨value, signature⟩

def document (seed : Seed) : Document :=
  .object [("Seed", seed.value.document), ("Signature", .string seed.signature)]

/-- The secret itself: the member `Seed` of the value, or the value as a whole if it has none. -/
def payload (seed : Seed) : Value :=
  (seed.value.member? "Seed").getD seed.value

end Seed

/-! ## Loading -/

/-- Why a seed cannot be loaded. -/
inductive SeedError where
  | missingPath
  | notFound (path : Path)
  | io (path : Path) (cause : IoFailure)
  | parse (path : Path) (cause : ReadError)
  /-- The value of the seed is `null`. -/
  | emptySeed (path : Path)

namespace SeedError

def message : SeedError → String
  | .missingPath => "seed path is not set"
  | .notFound path => "seed file not found: " ++ path.text
  | .io path cause => "failed to read seed file " ++ path.text ++ ": " ++ cause.message
  | .parse path cause => "failed to parse seed file " ++ path.text ++ ": " ++ cause.message
  | .emptySeed path => "seed file " ++ path.text ++ " has an empty Seed field"

/-- The failures behind this one, in words, the nearest first. -/
def sources : SeedError → List String
  | .io _ cause => [cause.message]
  | .parse _ cause => [cause.message]
  | _ => []

/-- Whether the file could not be read at all. -/
def isIo : SeedError → Bool
  | .notFound _ | .io .. => true
  | _ => false

end SeedError

def Seed.load (files : FileSource) (p : Path) : Except SeedError Seed :=
  if p.isEmpty then .error .missingPath
  else
    match files.readText p with
    | .error cause => .error (if cause.kind = .notFound then .notFound p else .io p cause)
    | .ok text =>
      match shape.parse (Utf8.encode text) with
      | .error cause => .error (.parse p cause)
      | .ok seed => if seed.value.isNull then .error (.emptySeed p) else .ok seed

/-- A seed that was loaded is the record that its file holds, and its value is there. -/
theorem Seed.load_eq_ok {files : FileSource} {p : Path} {seed : Seed}
    (h : Seed.load files p = .ok seed) :
    ∃ text, files.readText p = .ok text ∧ shape.parse (Utf8.encode text) = .ok seed
      ∧ seed.value.isNull = false := by
  unfold Seed.load at h
  split at h
  · cases h
  split at h
  · cases h
  · next text htext =>
    split at h
    · cases h
    · next seed' hparse =>
      split at h
      · cases h
      · next hnull =>
        cases h
        exact ⟨text, htext, hparse, Bool.eq_false_iff.mpr hnull⟩

end BootTrust
