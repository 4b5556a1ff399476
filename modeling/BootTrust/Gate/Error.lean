import BootTrust.ContentHash
import BootTrust.Device
import BootTrust.Seed
import BootTrust.Signing.Client
import BootTrust.State.Store
/-
Why there is no signed URL. Each step on the way to one has a failure of its own, which carries the
failure of the part that the step called. A failure has a reason, the name of its step, and a kind,
which says what sort of thing went wrong whatever the step.
-/

set_option autoImplicit false

namespace BootTrust

/-- A failure on the way to a signed URL. -/
inductive GateError where
  | disabled
  | missingEndpoint
  | missingSeedPath
  | volumeResolution (cause : DeviceError)
  | hashFailure (cause : HashError)
  | seedLoad (cause : SeedError)
  | macAddresses (cause : DeviceError)
  | signFailure (cause : SignError)

/-- The step that failed. -/
inductive FailureReason where
  | disabled
  | missingEndpoint
  | missingSeedPath
  | volumeResolution
  | hashFailure
  | seedLoad
  | macAddresses
  | signFailure
  deriving DecidableEq

def FailureReason.text : FailureReason → String
  | .disabled => "disabled"
  | .missingEndpoint => "missingEndpoint"
  | .missingSeedPath => "missingSeedPath"
  | .volumeResolution => "volumeResolution"
  | .hashFailure => "hashFailure"
  | .seedLoad => "seedLoad"
  | .macAddresses => "macAddresses"
  | .signFailure => "signFailure"

/-- What sort of thing went wrong. -/
inductive FailureKind where
  | configuration
  | volumeNotFound
  | io
  | seedLoad
  | transport
  | remoteProtocol
  | stateStore
  | device
  deriving DecidableEq

/-- A failing state store is of one kind, whatever it failed at. -/
def StateError.kind (_ : StateError) : FailureKind := .stateStore

namespace GateError

/-- The step that failed. -/
def reason : GateError → FailureReason
  | .disabled => .disabled
  | .missingEndpoint => .missingEndpoint
  | .missingSeedPath => .missingSeedPath
  | .volumeResolution _ => .volumeResolution
  | .hashFailure _ => .hashFailure
  | .seedLoad _ => .seedLoad
  | .macAddresses _ => .macAddresses
  | .signFailure _ => .signFailure

/-- What sort of thing went wrong. -/
def kind : GateError → FailureKind
  | .disabled | .missingEndpoint | .missingSeedPath => .configuration
  | .volumeResolution _ => .volumeNotFound
  | .hashFailure _ => .io
  | .seedLoad cause => if cause.isIo then .io else .seedLoad
  | .macAddresses _ => .device
  | .signFailure (.transport _) => .transport
  | .signFailure (.encode _) => .seedLoad
  | .signFailure _ => .remoteProtocol

/-- The failure of the signing itself, if it got that far. -/
def signError? : GateError → Option SignError
  | .signFailure cause => some cause
  | _ => none

def message : GateError → String
  | .disabled => "signed URLs are disabled (use_signed_url is false)"
  | .missingEndpoint => "sign_endpoint must be set when using signed URLs"
  | .missingSeedPath => "seed_path must be set when using signed URLs"
  | .volumeResolution cause => "failed to resolve provisioning volume: " ++ cause.message
  | .hashFailure cause => "failed to hash install media: " ++ cause.message
  | .seedLoad cause => "failed to load seed: " ++ cause.message
  | .macAddresses cause => "failed to enumerate MAC addresses: " ++ cause.message
  | .signFailure cause => "failed to obtain signed URL: " ++ cause.message

/-- The failures behind this one, in words, the nearest first. -/
def sources : GateError → List String
  | .disabled | .missingEndpoint | .missingSeedPath => []
  | .volumeResolution cause | .macAddresses cause => [cause.message]
  | .hashFailure cause => cause.message :: cause.sources
  | .seedLoad cause => cause.message :: cause.sources
  | .signFailure cause => cause.message :: cause.sources

end GateError

end BootTrust
