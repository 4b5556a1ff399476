import BootTrust.Text.Utf8
/-
The way to the signing service. A transport takes a post and brings back what the service answered,
or a failure of its own. It may have a state, such as the answers that are still to come; what was
posted is not part of it, since whoever posts knows what it posted.
-/

set_option autoImplicit false

namespace BootTrust

/-- A body and the address it is posted to. -/
structure Post where
  url : String
  body : Bytes
  deriving DecidableEq

/-- What a service answers. -/
structure HttpResponse where
  status : UInt16
  body : Bytes
  deriving DecidableEq

/-- Why a transport brings no answer. -/
structure TransportError where
  /-- The address of the post; it is empty if there is no client that could post. -/
  url : String
  reason : String
  deriving DecidableEq

namespace TransportError

/-- The failure to set up a client. -/
def clientSetup (reason : String) : TransportError := ⟨"", reason⟩

/-- Whether there was no client. -/
def isClientSetup (e : TransportError) : Bool :=
  e.url.isEmpty

def message (e : TransportError) : String :=
  if e.isClientSetup then "failed to build HTTP client: " ++ e.reason
  else "request to " ++ e.url ++ " failed: " ++ e.reason

end TransportError

/-- What a post leads to. -/
abbrev Answer := Except TransportError HttpResponse

/-- A way to post, with a state of type `σ`. -/
structure Transport (σ : Type) where
  post : σ → Post → σ × Answer

namespace Transport

/-- The transport whose answers lie ready in a queue. -/
def queue : Transport (List Answer) where
  post
    | [], p => ([], .error ⟨p.url, "no response queued"⟩)
    | answer :: more, _ => (more, answer)

end Transport

/-- What comes of something that may post: the state of the transport behind it, the posts in their
order, and the result. -/
structure Exchange (σ α : Type) where
  state : σ
  posts : List Post
  result : α

end BootTrust
