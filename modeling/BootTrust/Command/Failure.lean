import BootTrust.Config
import BootTrust.Gate.Error
import BootTrust.State.Store
/-
How a command fails. A failure wraps what went wrong in a part of the program; it decides the exit
code by what sort of thing that is, and it is never zero.
-/

set_option autoImplicit false

namespace BootTrust.Command

inductive Failure where
  | configuration (cause : ConfigError)
  | verification (cause : GateError)
  | stateStore (cause : StateError)
  | hash (cause : HashError)
  | device (cause : DeviceError)
  | transport (cause : TransportError)

/-- The exit code that tells a failure of some kind. -/
def exitCodeOf : FailureKind → Nat
  | .configuration => 2
  | .volumeNotFound => 3
  | .io | .seedLoad => 4
  | .transport | .remoteProtocol => 5
  | .stateStore => 6
  | .device => 1

namespace Failure

/-- The exit code of a command that fails. -/
def exitCode : Failure → Nat
  | .configuration _ => 2
  | .verification cause => exitCodeOf cause.kind
  | .stateStore _ => 6
  | .hash _ => 4
  | .device (.macQuery _) => 1
  | .device _ => 3
  | .transport _ => 1

/-- The step on the way to a signed URL that failed, if the command was on that way. -/
def reason? : Failure → Option FailureReason
  | .verification cause => some cause.reason
  | _ => none

def typeName : Failure → String
  | .configuration _ => "configuration"
  | .verification _ => "verification"
  | .stateStore _ => "state_store"
  | .hash _ => "hash"
  | .device _ => "device"
  | .transport _ => "transport"

def message : Failure → String
  | .configuration cause => "Invalid configuration: " ++ cause.message
  | .verification cause =>
    "Signed URL request failed (" ++ cause.reason.text ++ "): " ++ cause.message
  | .stateStore cause => "State store error: " ++ cause.message
  | .hash cause => "Hash error: " ++ cause.message
  | .device cause => "Device error: " ++ cause.message
  | .transport cause => "HTTP client error: " ++ cause.message

/-- The failures behind this one, in words, the nearest first. -/
def sources : Failure → List String
  | .configuration cause => cause.message :: cause.sources
  | .verification cause => cause.message :: cause.sources
  | .stateStore cause => cause.message :: cause.sources
  | .hash cause => cause.message :: cause.sources
  | .device cause => [cause.message]
  | .transport cause => [cause.message]

end Failure

end BootTrust.Command
