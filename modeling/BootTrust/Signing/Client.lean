import BootTrust.Signing.Message
import BootTrust.Signing.Transport
import BootTrust.Trace
/-
One round trip to the signing service. The answer is accepted only if it passes five checks, in this
order: it was delivered, its status is 200, its body is a response, the response reports success,
and its signed address is the hash that was sent, byte for byte. Nothing is tried twice.

Round trips that follow one another share nothing but the transport, so whatever a call leaves for
the next one is in the transport's state.
-/

set_option autoImplicit false

namespace BootTrust

open Json

/-- Why a request was not granted. -/
inductive SignError where
  | encode (cause : ReadError)
  | transport (cause : TransportError)
  | badStatus (status : UInt16)
  | malformedResponse (cause : ReadError)
  | remoteRejected (status : SignStatus) (errorCode : Int64)
  | hashMismatch (expected actual : String)

namespace SignError

def message : SignError → String
  | .encode cause => "failed to encode sign request: " ++ cause.message
  | .transport cause => "transport failure: " ++ cause.message
  | .badStatus status => "sign endpoint returned HTTP " ++ Decimal.naturalText status.toNat
  | .malformedResponse cause => "malformed sign response: " ++ cause.message
  | .remoteRejected status errorCode =>
    "sign endpoint rejected the request: status " ++ status.text ++ ", error code "
      ++ Decimal.integerText errorCode.toInt
  | .hashMismatch expected actual =>
    "signed hash mismatch: expected " ++ expected ++ ", got " ++ actual

/-- The failures behind this one, in words, the nearest first. -/
def sources : SignError → List String
  | .encode cause | .malformedResponse cause => [cause.message]
  | .transport cause => [cause.message]
  | _ => []

/-- Whether no answer was delivered. -/
def isTransport : SignError → Bool
  | .transport _ => true
  | _ => false

end SignError

namespace SignRequest

/-- The post that sends a request to an endpoint. -/
def post (request : SignRequest) (endpoint : String) : Post :=
  ⟨endpoint, request.body⟩

/-- What an answer means for a request: the hash that the service signed, or the first check that
the answer fails. -/
def verify (request : SignRequest) (answer : Answer) : Except SignError String :=
  match answer with
  | .error cause => .error (.transport cause)
  | .ok response =>
    if response.status ≠ 200 then .error (.badStatus response.status)
    else
      match SignResponse.parse response.body with
      | .error cause => .error (.malformedResponse cause)
      | .ok parsed =>
        if parsed.status ≠ .success then .error (.remoteRejected parsed.status parsed.errorCode)
        else if parsed.signedUrl ≠ request.hash then
          .error (.hashMismatch request.hash parsed.signedUrl)
        else .ok parsed.signedUrl

variable {σ : Type}

/-- Sends a request once and checks the answer. Without a body nothing is sent. -/
def sign (request : SignRequest) (endpoint : String) (transport : Transport σ) (state : σ) :
    Exchange σ (Except SignError String) :=
  match request.encode with
  | .error cause => ⟨state, [], .error (.encode cause)⟩
  | .ok body =>
    let post := ⟨endpoint, body⟩
    let (state, answer) := transport.post state post
    ⟨state, [post], request.verify answer⟩

/-- There is always a body, so there is one post, and the answer to it decides. -/
theorem sign_eq (request : SignRequest) (endpoint : String) (transport : Transport σ) (state : σ) :
    request.sign endpoint transport state
      = ⟨(transport.post state (request.post endpoint)).1, [request.post endpoint],
        request.verify (transport.post state (request.post endpoint)).2⟩ := by
  rw [sign, encode_eq]
  rfl

end SignRequest

/-! ## Round trips, one after another -/

/-- A request that is to be signed, and where it goes. -/
structure SignCall where
  request : SignRequest
  endpoint : String

/-- What a call has posted, and its result. -/
structure SignReply where
  posts : List Post
  result : Except SignError String

/-- Makes a call. -/
def SignCall.make {σ : Type} (transport : Transport σ) (state : σ) (call : SignCall) :
    σ × SignReply :=
  let exchange := call.request.sign call.endpoint transport state
  (exchange.state, ⟨exchange.posts, exchange.result⟩)

/-- A call in a run of calls. -/
abbrev SignEvent (σ : Type) := Event σ SignCall SignReply

end BootTrust
