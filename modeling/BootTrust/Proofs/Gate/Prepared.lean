import BootTrust.Gate.SignedUrl
import BootTrust.Proofs.Steps
/-
What a gate finds out before it asks the service. The steps up to the request depend on each other
only through what they find, so the whole of `prepare` comes down to its findings: it makes a
request if and only if each step finds something, and the request is made of what they have found.
-/

set_option autoImplicit false

namespace BootTrust

/-- What the steps up to a request find. -/
structure Findings where
  endpoint : String
  seedPath : Path
  drive : String
  hash : String
  seed : Seed
  macs : List String

/-- The request that is made of findings, and where it goes. -/
def Findings.submission (found : Findings) (resource : String) : Submission :=
  ⟨found.endpoint, .ofSeed found.hash found.macs resource found.seed⟩

/-- The post that a request is sent with. -/
def Submission.post (submission : Submission) : Post :=
  submission.request.post submission.endpoint

namespace Gate

/-- That each step finds something, and what. -/
structure Finds (gate : Gate) (found : Findings) : Prop where
  enabled : gate.config.useSignedUrl = true
  endpoint : gate.config.endpoint? = some found.endpoint
  seedPath : gate.config.seed? = some found.seedPath
  drive : Device.resolveVolume gate.probe gate.config.volumeLabel = .ok found.drive
  hash : ContentHash.ofFile gate.files (Device.mediaPath gate.config.mediaRelativePath found.drive)
    = .ok found.hash
  seed : Seed.load gate.files found.seedPath = .ok found.seed
  macs : gate.probe.macAddresses = .ok found.macs

/-- The steps up to a request, each by itself. -/
theorem prepare_eq (gate : Gate) (resource : String) :
    gate.prepare resource = (do
      Steps.check gate.config.useSignedUrl .disabled
      let endpoint ← Steps.take gate.config.endpoint? .missingEndpoint
      let seedPath ← Steps.take gate.config.seed? .missingSeedPath
      let drive ← (Device.resolveVolume gate.probe gate.config.volumeLabel).mapError
        .volumeResolution
      let hash ← (ContentHash.ofFile gate.files
        (Device.mediaPath gate.config.mediaRelativePath drive)).mapError .hashFailure
      let seed ← (Seed.load gate.files seedPath).mapError .seedLoad
      let macs ← gate.probe.macAddresses.mapError .macAddresses
      return ⟨endpoint, .ofSeed hash macs resource seed⟩) := by
  rw [prepare]
  rcases gate.config.useSignedUrl with _ | _
  · rfl
  · rcases gate.config.endpoint? with _ | endpoint
    · rfl
    · rcases gate.config.seed? with _ | seedPath
      · rfl
      · rfl

variable {gate : Gate} {resource : String} {submission : Submission}

/-- A request is made if and only if all steps find something, and it is made of that. -/
theorem prepare_eq_ok_iff : gate.prepare resource = .ok submission ↔
    ∃ found, gate.Finds found ∧ submission = found.submission resource := by
  simp only [prepare_eq, Steps.bind_eq_ok_iff, Steps.mapError_eq_ok_iff, Steps.take_eq_ok_iff]
  constructor
  · rintro ⟨_, hcheck, endpoint, hendpoint, seedPath, hseedPath, drive, hdrive, hash, hhash, seed,
      hseed, macs, hmacs, hpure⟩
    exact ⟨⟨endpoint, seedPath, drive, hash, seed, macs⟩,
      ⟨Steps.check_eq_ok_iff.mp hcheck, hendpoint, hseedPath, hdrive, hhash, hseed, hmacs⟩,
      (Except.ok.inj hpure).symm⟩
  · rintro ⟨found, hfound, rfl⟩
    exact ⟨(), Steps.check_eq_ok_iff.mpr hfound.enabled, found.endpoint, hfound.endpoint,
      found.seedPath, hfound.seedPath, found.drive, hfound.drive, found.hash, hfound.hash,
      found.seed, hfound.seed, found.macs, hfound.macs, rfl⟩

/-! ## What is posted -/

variable {σ : Type} (transport : Transport σ) (state : σ)

/-- With a request there is one post, whatever the answer. -/
theorem signedUrl_of_prepare (h : gate.prepare resource = .ok submission) :
    gate.signedUrl resource transport state
      = ⟨(transport.post state submission.post).1, [submission.post],
        (submission.request.verify (transport.post state submission.post).2).mapError
          .signFailure⟩ := by
  rw [signedUrl, h]
  simp only [SignRequest.sign_eq]
  rfl

/-- Without a request there is none, and the transport is as it was. -/
theorem signedUrl_of_prepare_error {e : GateError} (h : gate.prepare resource = .error e) :
    gate.signedUrl resource transport state = ⟨state, [], .error e⟩ := by
  rw [signedUrl, h]

end Gate

end BootTrust
