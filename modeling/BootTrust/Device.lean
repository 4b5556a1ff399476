import BootTrust.Path
import BootTrust.Text.Blank
import BootTrust.Text.Quoted
/-
The device that asks for trust: its volumes, one of which is the provisioning volume, and the
addresses of its network interfaces. A volume is found by its label. What it reports as its drive
may be a letter in several spellings or a directory; `normalizeDrive` brings the spellings together,
and `mediaPath` says where on the drive the boot image lies.
-/

set_option autoImplicit false

namespace BootTrust

/-- A volume as the device reports it. -/
structure Volume where
  label : String
  drive : String
  deriving DecidableEq

/-- Why something about the device cannot be found out. -/
inductive DeviceError where
  | volumeNotFound (label : String)
  | emptyDriveLetter (label : String)
  | volumeQuery (reason : String)
  | macQuery (reason : String)
  deriving DecidableEq

def DeviceError.message : DeviceError → String
  | .volumeNotFound label => "no volume labelled " ++ Text.quote label ++ " was found"
  | .emptyDriveLetter label =>
    "volume labelled " ++ Text.quote label ++ " has an empty drive letter"
  | .volumeQuery reason => "volume query failed: " ++ reason
  | .macQuery reason => "MAC address query failed: " ++ reason

/-- What the device answers when asked for its volumes and its addresses. -/
structure Probe where
  volumes : Except DeviceError (List Volume)
  macAddresses : Except DeviceError (List String)

namespace Probe

/-- A probe with prepared answers; a reason to fail comes before an answer. -/
def fixed (volumes : List Volume) (macs : List String) (volumeError macError : Option String) :
    Probe where
  volumes :=
    match volumeError with
    | some reason => .error (.volumeQuery reason)
    | none => .ok volumes
  macAddresses :=
    match macError with
    | some reason => .error (.macQuery reason)
    | none => .ok macs

end Probe

namespace Device

/-- A separator of a path on either kind of system. -/
def isSeparator (c : Char) : Bool :=
  c = '\\' || c = '/'

/-- The characters of a drive in the spelling that all others lead to. Blanks at both ends and
separators at the end are dropped, and so is a colon behind a single byte; of a drive that has
nothing but separators they are kept. -/
def normalizeChars (drive : List Char) : List Char :=
  let trimmed := Text.trimChars drive
  let letter := (trimmed.reverse.dropWhile isSeparator).reverse
  match letter with
  | [] => trimmed
  | c :: rest => if c.toNat < 0x80 ∧ rest = [':'] then [c] else letter

/-- A drive in the spelling that all others lead to. -/
def normalizeDrive (drive : String) : String :=
  String.ofList (normalizeChars drive.toList)

/-- The drive of the first volume with a label. -/
def resolveVolume (probe : Probe) (label : String) : Except DeviceError String := do
  match (← probe.volumes).find? (·.label = label) with
  | none => .error (.volumeNotFound label)
  | some volume =>
    let drive := normalizeDrive volume.drive
    if drive.isEmpty then .error (.emptyDriveLetter label) else .ok drive

/-- Whether a character is a letter of ASCII. -/
def isLetter (c : Char) : Bool :=
  ('a' ≤ c && c ≤ 'z') || ('A' ≤ c && c ≤ 'Z')

/-- The parts of a path with separators of either kind; empty ones are left out. -/
def relativeParts (relative : String) : List String :=
  ((Text.parts isSeparator relative.toList).filter (· ≠ [])).map String.ofList

/-- Where the boot image lies. On a drive with a letter the path is written with backslashes; any
other drive is a directory, and the path goes on from there. -/
def mediaPath (relative drive : String) : Path :=
  let drive := normalizeDrive drive
  match drive.toList with
  | [c] =>
    if isLetter c then
      ⟨drive ++ ":\\" ++ String.ofList (relative.toList.map fun c => if c = '/' then '\\' else c)⟩
    else (relativeParts relative).foldl Path.join ⟨drive⟩
  | _ => (relativeParts relative).foldl Path.join ⟨drive⟩

example : mediaPath "images/install.wim" " D:/ " = ⟨"D:\\images\\install.wim"⟩ := by decide

example : mediaPath "sources\\boot.wim" "/media/usb/" = ⟨"/media/usb/sources/boot.wim"⟩ := by
  decide

end Device

end BootTrust
