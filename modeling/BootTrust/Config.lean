import BootTrust.Disk.Access
import BootTrust.Json.Printer
import BootTrust.Json.Record
import BootTrust.Text.Blank
import BootTrust.Text.Quoted
/-
The configuration: whether signed URLs are used, where the signing service and the seed are, and
where the boot image lies. Every member of the file may be left out and then has its default. Blank
values count as not set, which `endpoint?` and `seed?` take care of.
-/

set_option autoImplicit false

namespace BootTrust

open Json

structure Config where
  useSignedUrl : Bool
  signEndpoint : Option String
  seedPath : Option Path
  volumeLabel : String
  mediaRelativePath : String
  timeoutSeconds : UInt64
  deriving DecidableEq

/-- The label of the provisioning volume, unless another one is configured. -/
def defaultVolumeLabel : String := "BEYONDCORP"

/-- Where the boot image lies on the provisioning volume, unless another place is configured. -/
def defaultMediaRelativePath : String := "sources\\boot.wim"

namespace Config

/-- The configuration of an empty file. -/
def default : Config where
  useSignedUrl := false
  signEndpoint := none
  seedPath := none
  volumeLabel := defaultVolumeLabel
  mediaRelativePath := defaultMediaRelativePath
  timeoutSeconds := 30

/-- Signed URLs in use, with a signing service and a seed, and defaults for the rest. -/
def enabled (endpoint : String) (seed : Path) : Config :=
  { default with useSignedUrl := true, signEndpoint := some endpoint, seedPath := some seed }

/-- The address of the signing service, without blanks at its ends, if it is set. -/
def endpoint? (config : Config) : Option String :=
  (config.signEndpoint.map Text.trim).filter (! ·.isEmpty)

/-- The path of the seed, if it is set. -/
def seed? (config : Config) : Option Path :=
  config.seedPath.filter (! ·.isEmpty)

/-- Whether two configurations say the same; the spelling of the path of the seed does not
matter. -/
def same (config other : Config) : Bool :=
  { config with seedPath := none } = { other with seedPath := none }
    && config.seedPath.map Path.components = other.seedPath.map Path.components

/-! ## The file -/

/-- What has been read of a configuration. -/
structure Draft where
  useSignedUrl : Option Bool
  signEndpoint : Option (Option String)
  seedPath : Option (Option Path)
  volumeLabel : Option String
  mediaRelativePath : Option String
  timeoutSeconds : Option UInt64

def path : Reader Path := fun text => do
  let (s, rest) ← pathText text
  return (⟨s⟩, rest)

def seconds : Reader UInt64 := fun text => do
  let (n, rest) ← integerAs unsigned64 text
  return (UInt64.ofNat n.toNat, rest)

def shape : Shape Draft Config where
  name := "struct SignedUrlConfig"
  slots := [
    .of "use_signed_url" true flag Draft.useSignedUrl
      fun d v => { d with useSignedUrl := some v },
    .of "sign_endpoint" true (orNull text) Draft.signEndpoint
      fun d v => { d with signEndpoint := some v },
    .of "seed_path" true (orNull path) Draft.seedPath
      fun d v => { d with seedPath := some v },
    .of "volume_label" true text Draft.volumeLabel
      fun d v => { d with volumeLabel := some v },
    .of "media_relative_path" true text Draft.mediaRelativePath
      fun d v => { d with mediaRelativePath := some v },
    .of "request_timeout_secs" true seconds Draft.timeoutSeconds
      fun d v => { d with timeoutSeconds := some v }
  ]
  blank := ⟨none, none, none, none, none, none⟩
  finish d := .ok {
    useSignedUrl := d.useSignedUrl.getD default.useSignedUrl
    signEndpoint := d.signEndpoint.getD default.signEndpoint
    seedPath := d.seedPath.getD default.seedPath
    volumeLabel := d.volumeLabel.getD default.volumeLabel
    mediaRelativePath := d.mediaRelativePath.getD default.mediaRelativePath
    timeoutSeconds := d.timeoutSeconds.getD default.timeoutSeconds }

/-- A text that may be unset, as a document. -/
def textOrNull : Option String → Document
  | some s => .string s
  | none => .null

/-- A number of seconds fits the integers of a document. -/
theorem seconds_inRange (n : UInt64) :
    leastInteger ≤ (n.toNat : Int) ∧ (n.toNat : Int) ≤ greatestInteger := by
  have := n.toNat_lt
  simp only [leastInteger, greatestInteger]
  omega

/-- A configuration as a document, with its members in their fixed order. -/
def document (config : Config) : Document :=
  .object [
    ("use_signed_url", .bool config.useSignedUrl),
    ("sign_endpoint", textOrNull config.signEndpoint),
    ("seed_path", textOrNull (config.seedPath.map Path.text)),
    ("volume_label", .string config.volumeLabel),
    ("media_relative_path", .string config.mediaRelativePath),
    ("request_timeout_secs",
      .number (.integer config.timeoutSeconds.toNat (seconds_inRange config.timeoutSeconds)))]

end Config

/-! ## Failures -/

/-- The members of a configuration that validation may reject. -/
inductive ConfigField where
  | signEndpoint
  | volumeLabel
  | mediaRelativePath
  | timeoutSeconds
  deriving DecidableEq

def ConfigField.name : ConfigField → String
  | .signEndpoint => "sign_endpoint"
  | .volumeLabel => "volume_label"
  | .mediaRelativePath => "media_relative_path"
  | .timeoutSeconds => "request_timeout_secs"

/-- What is wrong with a configuration or its file. -/
inductive ConfigError where
  | io (path : Path) (cause : IoFailure)
  | parse (path : Path) (cause : ReadError)
  | invalid (field : ConfigField) (reason : String)

namespace ConfigError

def message : ConfigError → String
  | .io path cause => "config file " ++ path.text ++ ": " ++ cause.message
  | .parse path cause => "failed to parse config file " ++ path.text ++ ": " ++ cause.message
  | .invalid field reason => "invalid configuration: " ++ field.name ++ ": " ++ reason

/-- The failures behind this one, in words, the nearest first. -/
def sources : ConfigError → List String
  | .io _ cause => [cause.message]
  | .parse _ cause => [cause.message]
  | .invalid .. => []

end ConfigError

namespace Config

/-! ## Loading, saving and checking -/

def load (disk : Disk) (p : Path) : Except ConfigError Config :=
  match disk.read p with
  | .error cause => .error (.io p cause)
  | .ok bytes =>
    if (Utf8.decode? bytes).isNone then .error (.io p IoFailure.notText)
    else
      match shape.parse bytes with
      | .error cause => .error (.parse p cause)
      | .ok config => .ok config

/-- Saves a configuration at a path; how the disk changes, and whether it went well. -/
def save (config : Config) (p : Path) (disk : Disk) : List Effect × Except ConfigError Unit :=
  match Disk.replaceFile p config.document.pretty disk with
  | (effects, .ok ()) => (effects, .ok ())
  | (effects, .error cause) => (effects, .error (.io p cause))

/-- Whether a text is the address of a service that speaks HTTP. -/
def isHttp (endpoint : String) : Bool :=
  "https://".toList.isPrefixOf endpoint.toList || "http://".toList.isPrefixOf endpoint.toList

/-- Checks the members that are set to values no gate could work with. -/
def validate (config : Config) : Except ConfigError Unit := do
  if let some endpoint := config.endpoint? then
    if !isHttp endpoint then
      throw (.invalid .signEndpoint (Text.quote endpoint ++ " is not an http(s) URL"))
  if Text.isAllBlank config.volumeLabel then
    throw (.invalid .volumeLabel "must not be empty")
  if Text.isAllBlank config.mediaRelativePath then
    throw (.invalid .mediaRelativePath "must not be empty")
  if config.timeoutSeconds = 0 then
    throw (.invalid .timeoutSeconds "must be greater than zero")

end Config

end BootTrust
