import BootTrust.Json.Printer
import BootTrust.Json.Record
import BootTrust.Seed
/-
What goes to the signing service and what comes back. A request says which content is at hand, on
which device, for which resource, and shows the seed. A response has a status, and a signed address
that repeats the hash of the request if the service agrees.
-/

set_option autoImplicit false

namespace BootTrust

open Json

/-! ## Requests -/

structure SignRequest where
  hash : String
  macs : List String
  path : String
  seed : Value
  signature : String

namespace SignRequest

/-- A request that shows `seed`. -/
def ofSeed (hash : String) (macs : List String) (path : String) (seed : Seed) : SignRequest :=
  ⟨hash, macs, path, seed.value, seed.signature⟩

/-- What has been read of a request. -/
structure Draft where
  hash : Option String
  macs : Option (List String)
  path : Option String
  seed : Option Value
  signature : Option String

def shape : Shape Draft SignRequest where
  name := "struct SignRequest"
  slots := [
    .of "Hash" false text Draft.hash fun d v => { d with hash := some v },
    .of "Mac" false textList Draft.macs fun d v => { d with macs := some v },
    .of "Path" false text Draft.path fun d v => { d with path := some v },
    .of "Seed" false (value memberDepth) Draft.seed fun d v => { d with seed := some v },
    .of "Signature" false text Draft.signature fun d v => { d with signature := some v }
  ]
  blank := ⟨none, none, none, none, none⟩
  finish d :=
    match d.hash, d.macs, d.path, d.seed, d.signature with
    | none, _, _, _, _ => .error "Hash"
    | _, none, _, _, _ => .error "Mac"
    | _, _, none, _, _ => .error "Path"
    | _, _, _, none, _ => .error "Seed"
    | _, _, _, _, none => .error "Signature"
    | some hash, some macs, some path, some seed, some signature =>
      .ok ⟨hash, macs, path, seed, signature⟩

def document (request : SignRequest) : Document :=
  .object [
    ("Hash", .string request.hash),
    ("Mac", .array (request.macs.map .string)),
    ("Path", .string request.path),
    ("Seed", request.seed.document),
    ("Signature", .string request.signature)]

/-- The body in which a request is sent. -/
def body (request : SignRequest) : Bytes :=
  request.document.compact

/-- Writes the body. An encoder may refuse what it is given, such as a map with keys that are no
texts. -/
def encode (request : SignRequest) : Except ReadError Bytes :=
  .ok request.body

/-- There is nothing in a request that an encoder would refuse. -/
@[simp] theorem encode_eq (request : SignRequest) : request.encode = .ok request.body :=
  rfl

def parse (body : Bytes) : Except ReadError SignRequest :=
  shape.parse body

end SignRequest

/-! ## Responses -/

/-- How the service answers. -/
inductive SignStatus where
  | success
  | failed
  | other (text : String)
  deriving DecidableEq

namespace SignStatus

def ofText (text : String) : SignStatus :=
  if text = "Success" then .success else if text = "Failed" then .failed else .other text

def text : SignStatus → String
  | .success => "Success"
  | .failed => "Failed"
  | .other text => text

theorem text_ofText (s : String) : (ofText s).text = s := by
  unfold ofText
  split
  · next h => exact h.symm
  · split
    · next h => exact h.symm
    · rfl

end SignStatus

structure SignResponse where
  status : SignStatus
  errorCode : Int64
  signedUrl : String
  path : String
  deriving DecidableEq

namespace SignResponse

/-- What has been read of a response. -/
structure Draft where
  status : Option SignStatus
  errorCode : Option Int64
  signedUrl : Option String
  path : Option String

def readStatus : Reader SignStatus := fun source => do
  let (s, rest) ← text source
  return (.ofText s, rest)

def readErrorCode : Reader Int64 := fun source => do
  let (n, rest) ← integerAs signed64 source
  return (Int64.ofInt n, rest)

def shape : Shape Draft SignResponse where
  name := "struct SignResponse"
  slots := [
    .of "Status" false readStatus Draft.status fun d v => { d with status := some v },
    .of "ErrorCode" true readErrorCode Draft.errorCode fun d v => { d with errorCode := some v },
    .of "SignedURL" true text Draft.signedUrl fun d v => { d with signedUrl := some v },
    .of "Path" true text Draft.path fun d v => { d with path := some v }
  ]
  blank := ⟨none, none, none, none⟩
  finish d :=
    match d.status with
    | none => .error "Status"
    | some status =>
      .ok ⟨status, d.errorCode.getD 0, d.signedUrl.getD "", d.path.getD ""⟩

/-- An error code fits the integers of a document. -/
theorem errorCode_inRange (n : Int64) :
    leastInteger ≤ n.toInt ∧ n.toInt ≤ greatestInteger := by
  have lower := n.le_toInt
  have upper := n.toInt_lt
  simp only [leastInteger, greatestInteger]
  omega

def document (response : SignResponse) : Document :=
  .object [
    ("Status", .string response.status.text),
    ("ErrorCode",
      .number (.integer response.errorCode.toInt (errorCode_inRange response.errorCode))),
    ("SignedURL", .string response.signedUrl), ("Path", .string response.path)]

/-- The body in which a response is sent. -/
def body (response : SignResponse) : Bytes :=
  response.document.compact

def parse (body : Bytes) : Except ReadError SignResponse :=
  shape.parse body

end SignResponse

end BootTrust
