import BootTrust.Proofs.Gate.Acceptance
import BootTrust.Proofs.Signing.RoundTrip
/-
An honest service is always accepted, and one that names another hash never is. Two messages cross
the wire, each written by one side and read by the other, and both are read back as they were
written; what remains is the check of the hash.

The request carries the value of the seed, which comes from a file. The reader of requests allows as
many brackets as the reader of seeds does, and in both records the value lies behind one bracket, so
a value that was nested shallowly enough to be loaded is so to be read again
(`Seed.fitsIn_of_load`). That the service reads the very value that was loaded needs its numbers to
be integers, because only these are written exactly.
-/

set_option autoImplicit false

namespace BootTrust

/-! ## The check of an answer -/

/-- An answer that reports success is checked for its hash alone; what else it says does not
matter. -/
theorem SignRequest.verify_success (request : SignRequest) (code : Int64) (url path : String) :
    request.verify (.ok ⟨200, (SignResponse.mk .success code url path).body⟩)
      = if url = request.hash then .ok request.hash
        else .error (.hashMismatch request.hash url) := by
  have hparse := SignResponse.parse_body ⟨.success, code, url, path⟩ rfl
  rw [verify]
  simp only [hparse, ne_eq, not_true_eq_false, if_false]
  by_cases hsame : url = request.hash
  · rw [if_neg (not_not_intro hsame), if_pos hsame, hsame]
  · rw [if_pos hsame, if_neg hsame]

/-! ## What a gate is given -/

namespace Gate

/-- That a gate is given all it needs for a request: an endpoint, a boot image on the volume, a seed
and the addresses of the device. -/
structure Provides (gate : Gate) (endpoint : String) (image : Bytes) (seed : Seed)
    (macs : List String) : Prop where
  enabled : gate.config.useSignedUrl = true
  endpoint : gate.config.endpoint? = some endpoint
  image : ∃ drive, Device.resolveVolume gate.probe gate.config.volumeLabel = .ok drive
    ∧ gate.files.readBytes (Device.mediaPath gate.config.mediaRelativePath drive) = .ok image
  seed : ∃ seedPath, gate.config.seed? = some seedPath ∧ Seed.load gate.files seedPath = .ok seed
  macs : gate.probe.macAddresses = .ok macs

variable {gate : Gate} {endpoint : String} {image : Bytes} {seed : Seed} {macs : List String}

theorem Provides.prepare (h : gate.Provides endpoint image seed macs) (resource : String) :
    gate.prepare resource
      = .ok ⟨endpoint, .ofSeed (ContentHash.ofBytes image) macs resource seed⟩ := by
  obtain ⟨drive, hdrive, himage⟩ := h.image
  obtain ⟨seedPath, hseedPath, hseed⟩ := h.seed
  have hhash : ContentHash.ofFile gate.files (Device.mediaPath gate.config.mediaRelativePath drive)
      = .ok (ContentHash.ofBytes image) := by
    rw [ContentHash.ofFile_eq, himage]
  exact prepare_eq_ok_iff.mpr ⟨⟨endpoint, seedPath, drive, ContentHash.ofBytes image, seed, macs⟩,
    ⟨h.enabled, h.endpoint, hseedPath, hdrive, hhash, hseed, h.macs⟩, rfl⟩

/-- What is posted decodes to the request, member by member. If the answer is a response that
reports success, its hash decides: the hash of the request is granted, and any other is refused as a
mismatch. -/
theorem honest_service_accepted {σ : Type} (h : gate.Provides endpoint image seed macs)
    (hexact : seed.value.document.isExact = true) (resource : String) (transport : Transport σ)
    (state : σ) :
    ∃ body request, (gate.signedUrl resource transport state).posts = [⟨endpoint, body⟩]
      ∧ SignRequest.parse body = .ok request
      ∧ request = ⟨ContentHash.ofBytes image, macs, resource, seed.value, seed.signature⟩
      ∧ ∀ code url path, (transport.post state ⟨endpoint, body⟩).2
          = .ok ⟨200, (SignResponse.mk .success code url path).body⟩ →
        (gate.signedUrl resource transport state).result
          = if url = request.hash then .ok (ContentHash.ofBytes image)
            else .error (.signFailure (.hashMismatch (ContentHash.ofBytes image) url)) := by
  obtain ⟨seedPath, -, hseed⟩ := h.seed
  refine ⟨(SignRequest.ofSeed (ContentHash.ofBytes image) macs resource seed).body, _, ?_,
    SignRequest.parse_body _ hexact (Seed.fitsIn_of_load hseed), rfl, ?_⟩
  · rw [signedUrl_of_prepare transport state (h.prepare resource)]
    rfl
  · intro code url path hanswer
    rw [signedUrl_of_prepare transport state (h.prepare resource)]
    simp only [Submission.post, SignRequest.post, hanswer, SignRequest.verify_success]
    by_cases hsame : url = (SignRequest.ofSeed (ContentHash.ofBytes image) macs resource seed).hash
    · rw [if_pos hsame, if_pos hsame]
      rfl
    · rw [if_neg hsame, if_neg hsame]
      rfl

/-! The empty image, and a seed with brackets of its own. -/

/-- The empty image, and a seed whose value is a record. -/
def nestedFiles : MemoryFiles :=
  sampleFiles.insert ⟨"seed.json"⟩
    (Utf8.encode "\x7b\"Signature\": \"s\", \"Seed\": \x7b\"b\": [-1, []], \"a\": null\x7d\x7d")

theorem nestedFiles_load : ∃ seed, Seed.load nestedFiles.source ⟨"seed.json"⟩ = .ok seed
    ∧ seed.value.document.isExact = true := by
  have hload : (Seed.load nestedFiles.source ⟨"seed.json"⟩).toOption.map (·.value.document.isExact)
      = some true := by
    decide +kernel
  exact Steps.toOption_map_eq_some_iff.mp hload

/-- The hash of the empty image is granted to a service that repeats it, and the empty text is
refused. -/
theorem honest_service_accepted_nested :
    ((inMemory sampleConfig nestedFiles sampleProbe).signedUrl "a.yaml" .queue
      [.ok ⟨200, (SignResponse.mk .success (-7) (ContentHash.ofBytes []) "p").body⟩]).result
        = .ok (ContentHash.ofBytes [])
    ∧ ((inMemory sampleConfig nestedFiles sampleProbe).signedUrl "a.yaml" .queue
      [.ok ⟨200, (SignResponse.mk .success 0 "" "").body⟩]).result
        = .error (.signFailure (.hashMismatch (ContentHash.ofBytes []) "")) := by
  obtain ⟨seed, hseed, hexact⟩ := nestedFiles_load
  have hseedPath : sampleConfig.seed? = some ⟨"seed.json"⟩ := by decide +kernel
  have himage : nestedFiles.source.readBytes (Device.mediaPath sampleConfig.mediaRelativePath "D")
      = .ok [] := by
    have hget : nestedFiles.get? (Device.mediaPath sampleConfig.mediaRelativePath "D")
        = some [] := by
      decide +kernel
    rw [MemoryFiles.readBytes_source, hget]
  have hprovides : (inMemory sampleConfig nestedFiles sampleProbe).Provides "http://sign" [] seed
      ["00:11:22:33:44:55"] :=
    ⟨rfl, by decide +kernel, ⟨"D", rfl, himage⟩, ⟨⟨"seed.json"⟩, hseedPath, hseed⟩, rfl⟩
  refine ⟨?_, ?_⟩
  · obtain ⟨body, request, -, -, rfl, hresult⟩ := honest_service_accepted hprovides hexact "a.yaml"
      .queue [.ok ⟨200, (SignResponse.mk .success (-7) (ContentHash.ofBytes []) "p").body⟩]
    rw [hresult (-7) (ContentHash.ofBytes []) "p" rfl, if_pos rfl]
  · obtain ⟨body, request, -, -, rfl, hresult⟩ := honest_service_accepted hprovides hexact "a.yaml"
      .queue [.ok ⟨200, (SignResponse.mk .success 0 "" "").body⟩]
    rw [hresult 0 "" "" rfl, if_neg (ContentHash.ofBytes_ne_empty []).symm]

end Gate

end BootTrust
