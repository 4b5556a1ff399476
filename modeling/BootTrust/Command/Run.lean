import BootTrust.Command.Arguments
import BootTrust.Command.Report
import BootTrust.Disk.Access
import BootTrust.Gate.SignedUrl
import BootTrust.State.File
import BootTrust.Trace
/-
Running a command on a disk. What a run needs of its host besides the disk is the device and a
client for the signing service, which the host may fail to set up. The configuration is loaded,
overridden by the options and validated before anything else happens.

A launch is the whole of it, from the command line to the report. Launches may follow one another on
one disk: every launch has its own arguments, environment and host, and what it leaves on the disk
is all that the next one gets from it.
-/

set_option autoImplicit false

namespace BootTrust.Command

/-- What a host has to offer besides its disk. -/
structure Host (σ : Type) where
  probe : Probe
  client : Except TransportError (Transport σ)

/-- What a run does: its effects on the disk, the client behind it, what it posted, and its
result. -/
structure Execution (σ : Type) where
  effects : List Effect
  client : σ
  posts : List Post
  result : Except Failure Outcome

namespace Invocation

/-- A configuration with the options of an invocation in place of what it says. -/
def override (invocation : Invocation) (config : Config) : Config :=
  { config with
    useSignedUrl := invocation.useSignedUrl || config.useSignedUrl
    signEndpoint := invocation.signEndpoint <|> config.signEndpoint
    seedPath := invocation.seedPath <|> config.seedPath }

/-- The configuration that is in force. -/
def effectiveConfig (invocation : Invocation) (disk : Disk) : Except ConfigError Config := do
  let file ←
    match invocation.config with
    | some p => Config.load disk p
    | none => .ok .default
  let config := invocation.override file
  config.validate
  return config

variable {σ : Type}

/-- The gate with its client. -/
def gate (invocation : Invocation) (host : Host σ) (disk : Disk) :
    Except Failure (Gate × Transport σ) := do
  let config ← (invocation.effectiveConfig disk).mapError .configuration
  let client ← host.client.mapError .transport
  return (⟨config, host.probe, disk.source⟩, client)

/-- Says whether signed URLs are required; this is all that may change the disk. -/
def runCheck (invocation : Invocation) (host : Host σ) (disk : Disk) :
    List Effect × Except Failure Outcome :=
  match invocation.gate host disk with
  | .error failure => ([], .error failure)
  | .ok (gate, _) =>
    let (effects, required) := FileState.perform invocation.state gate.required disk
    (effects, (required.mapError .stateStore).map .decision)

def runSign (invocation : Invocation) (resource : String) (host : Host σ) (disk : Disk)
    (client : σ) : Exchange σ (Except Failure Outcome) :=
  match invocation.gate host disk with
  | .error failure => ⟨client, [], .error failure⟩
  | .ok (gate, transport) =>
    let exchange := gate.signedUrl resource transport client
    ⟨exchange.state, exchange.posts,
      (exchange.result.mapError .verification).map (.signedUrl resource)⟩

def runHash (file : Path) (disk : Disk) : Except Failure Outcome :=
  ((ContentHash.ofFile disk.source file).mapError .hash).map (.hash file.text)

def runVolume (invocation : Invocation) (label : Option String) (host : Host σ) (disk : Disk) :
    Except Failure Outcome := do
  let config ← (invocation.effectiveConfig disk).mapError .configuration
  let label := label.getD config.volumeLabel
  let drive ← (Device.resolveVolume host.probe label).mapError .device
  return .volume label drive (Device.mediaPath config.mediaRelativePath drive).text

def run (invocation : Invocation) (host : Host σ) (disk : Disk) (client : σ) : Execution σ :=
  match invocation.action with
  | .check =>
    let (effects, result) := invocation.runCheck host disk
    ⟨effects, client, [], result⟩
  | .sign resource =>
    let exchange := invocation.runSign resource host disk client
    ⟨[], exchange.state, exchange.posts, exchange.result⟩
  | .hash file => ⟨[], client, [], runHash file disk⟩
  | .volume label => ⟨[], client, [], invocation.runVolume label host disk⟩

end Invocation

/-! ## Launches -/

/-- What the program is launched with. -/
structure Launch (σ : Type) where
  environment : List (String × String)
  arguments : List String
  host : Host σ
  client : σ

namespace Launch

variable {σ : Type}

/-- Launches the program. Without a line that is understood nothing is run, and there is no
report. -/
def step (disk : Disk) (launch : Launch σ) : Disk × Option Report :=
  match Invocation.parse launch.environment launch.arguments with
  | none => (disk, none)
  | some invocation =>
    let execution := invocation.run launch.host disk launch.client
    (Effect.applyAll execution.effects disk, some (.ofResult invocation.json execution.result))

end Launch

/-- A launch in a run of them. -/
abbrev LaunchEvent (σ : Type) := Event Disk (Launch σ) (Option Report)

end BootTrust.Command
