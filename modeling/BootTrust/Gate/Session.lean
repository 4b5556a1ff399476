import BootTrust.Gate.SignedUrl
import BootTrust.Trace
/-
Gates at work. Several gates, each with a configuration, a device and files of its own, use
one store and one way to post, and others may use the store as well. Nothing is assumed about
the order of the calls, and since every call brings its gate along, configuration, device and
files may change in between.
-/

set_option autoImplicit false

namespace BootTrust

/-- A call of a gate, or of the store by somebody else. -/
inductive GateCall where
  /-- Whether signed URLs are required. -/
  | required (gate : Gate)
  | signedUrl (gate : Gate) (resource : String)
  | set (key value : String)

/-- The result of a call. -/
inductive GateReply where
  | required (result : Except StateError Bool)
  | signedUrl (result : Except GateError String)
  | set (result : Except StateError Unit)

/-- What the gates share: a store and a transport, in their states, and what has been posted. -/
structure Session (σ τ : Type) where
  store : σ
  network : τ
  posts : List Post

/-- Makes a call. -/
def Session.step {σ τ : Type} (store : StateStore σ) (transport : Transport τ)
    (session : Session σ τ) : GateCall → Session σ τ × GateReply
  | .required gate =>
    let (state, result) := gate.required.run store session.store
    ({ session with store := state }, .required result)
  | .signedUrl gate resource =>
    let exchange := gate.signedUrl resource transport session.network
    ({ session with network := exchange.state, posts := session.posts ++ exchange.posts },
      .signedUrl exchange.result)
  | .set key value =>
    let (state, result) := store.set session.store key value
    ({ session with store := state }, .set result)

/-- A call in a run of gates. -/
abbrev GateEvent (σ τ : Type) := Event (Session σ τ) GateCall GateReply

end BootTrust
