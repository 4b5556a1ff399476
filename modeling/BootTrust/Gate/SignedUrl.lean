import BootTrust.Config
import BootTrust.Gate.Decision
import BootTrust.Gate.Error
/-
The gate in front of the resources. With a signed URL the service confirms the very content that
lies on the provisioning volume. Everything up to the request is `prepare`: it reads, it can fail,
and it posts nothing. What follows is one post and the check of its answer.
-/

set_option autoImplicit false

namespace BootTrust

/-- What a gate works with. -/
structure Gate where
  config : Config
  probe : Probe
  files : FileSource

/-- A request, and where it goes. -/
structure Submission where
  endpoint : String
  request : SignRequest

namespace Gate

/-- The request for a resource, or the first step that fails. -/
def prepare (gate : Gate) (resource : String) : Except GateError Submission := do
  let config := gate.config
  if !config.useSignedUrl then throw .disabled
  let some endpoint := config.endpoint? | throw .missingEndpoint
  let some seedPath := config.seed? | throw .missingSeedPath
  let drive ← (Device.resolveVolume gate.probe config.volumeLabel).mapError .volumeResolution
  let media := Device.mediaPath config.mediaRelativePath drive
  let hash ← (ContentHash.ofFile gate.files media).mapError .hashFailure
  let seed ← (Seed.load gate.files seedPath).mapError .seedLoad
  let macs ← gate.probe.macAddresses.mapError .macAddresses
  return ⟨endpoint, .ofSeed hash macs resource seed⟩

variable {σ : Type}

/-- The content hash that the service confirmed for a resource. -/
def signedUrl (gate : Gate) (resource : String) (transport : Transport σ) (state : σ) :
    Exchange σ (Except GateError String) :=
  match gate.prepare resource with
  | .error e => ⟨state, [], .error e⟩
  | .ok submission =>
    let exchange := submission.request.sign submission.endpoint transport state
    ⟨exchange.state, exchange.posts, exchange.result.mapError .signFailure⟩

/-- Whether signed URLs are required. -/
def required (gate : Gate) : StateProgram (Except StateError Bool) :=
  Decision.required gate.config.useSignedUrl

end Gate

end BootTrust
