import BootTrust.Command.Failure
import BootTrust.Proofs.Gate.Prepared
import BootTrust.Proofs.Hashing
import BootTrust.Proofs.Signing.Checks
/-
The kind of a failure says what happened. A failure is classified long after the call, from the
failures of the parts that it wraps, so the kind is right only if each part fails in the ways its
step can fail in. Two of them look as if they could be wrong and cannot occur: a seed without a
path, since no call comes to load it, and a request that cannot be encoded.

`Happened` tells for each kind what happens in a call, from the configuration, the device, the
files, the posts and the answer alone. Something of that list always happens (`exists_happened`),
and whatever does fixes the kind if the call fails (`kind_of_happened`). So the kind of a failure is
the one that has happened, and no two of them happen in one call that fails.
-/

set_option autoImplicit false

namespace BootTrust

/-- That the content of a seed file is no seed: it is not a record of that form, or its value is
`null`. -/
def Seed.IsRejected (text : String) : Prop :=
  (∃ cause, Seed.shape.parse (Utf8.encode text) = .error cause)
    ∨ ∃ seed, Seed.shape.parse (Utf8.encode text) = .ok seed ∧ seed.value.isNull = true

/-- That a file cannot be read as a text: it cannot be read at all, or its bytes are not UTF-8. -/
def FileSource.LacksText (files : FileSource) (p : Path) : Prop :=
  (∃ cause, files.readBytes p = .error cause)
    ∨ ∃ bytes, files.readBytes p = .ok bytes ∧ Utf8.decode? bytes = none

theorem FileSource.lacksText_iff {files : FileSource} {p : Path} :
    files.LacksText p ↔ ∃ cause, files.readText p = .error cause := by
  rw [LacksText, readText]
  rcases files.readBytes p with cause | bytes
  · simp [bind, Except.bind]
  · rcases hdecode : Utf8.decode? bytes with _ | text
    · simp [bind, Except.bind, hdecode]
    · simp [bind, Except.bind, hdecode]

/-! ## The parts of a call -/

namespace Seed

variable {files : FileSource} {p : Path} {text : String}

/-- Without a text to read, loading fails in reading. -/
theorem load_of_unread {failure : IoFailure} (hpath : p.isEmpty = false)
    (hread : files.readText p = .error failure) :
    ∃ cause, load files p = .error cause ∧ cause.isIo = true := by
  rw [load, hpath, hread]
  refine ⟨_, rfl, ?_⟩
  by_cases hkind : failure.kind = .notFound
  · rw [if_pos hkind, SeedError.isIo]
  · rw [if_neg hkind, SeedError.isIo]

/-- A text that is rejected makes loading fail, and not in reading. -/
theorem load_of_rejected (hpath : p.isEmpty = false) (hread : files.readText p = .ok text)
    (hrejected : IsRejected text) : ∃ cause, load files p = .error cause ∧ cause.isIo = false := by
  rw [load, hpath, hread]
  rcases hrejected with ⟨cause, hparse⟩ | ⟨seed, hparse, hnull⟩
  · simp only [hparse]
    exact ⟨_, rfl, rfl⟩
  · simp only [hparse, hnull]
    exact ⟨_, rfl, rfl⟩

/-- There is no other way for loading to fail. -/
theorem unread_or_rejected {cause : SeedError} (hpath : p.isEmpty = false)
    (h : load files p = .error cause) :
    files.LacksText p ∨ ∃ text, files.readText p = .ok text ∧ IsRejected text := by
  rcases hread : files.readText p with failure | text
  · exact Or.inl (FileSource.lacksText_iff.mpr ⟨failure, hread⟩)
  right
  refine ⟨text, rfl, ?_⟩
  rw [load, hpath, hread] at h
  rcases hparse : shape.parse (Utf8.encode text) with reason | seed
  · exact Or.inl ⟨reason, hparse⟩
  · rcases hnull : seed.value.isNull with _ | _
    · simp only [hparse, hnull] at h
      cases h
    · exact Or.inr ⟨seed, hparse, hnull⟩

end Seed

namespace SignRequest

variable {request : SignRequest} {e : SignError}

/-- An answer that was not delivered is a failure of the transport. -/
theorem kind_of_undelivered {cause : TransportError}
    (h : request.verify (.error cause) = .error e) :
    (GateError.signFailure e).kind = .transport := by
  cases verify_eq_iff.mp h with
  | undelivered => rfl

/-- An answer that was delivered and does not pass is a failure of the service; no check blames the
encoding. -/
theorem kind_of_delivered {response : HttpResponse} (h : request.verify (.ok response) = .error e) :
    (GateError.signFailure e).kind = .remoteProtocol := by
  cases verify_eq_iff.mp h with
  | badStatus => rfl
  | malformed => rfl
  | rejected => rfl
  | mismatch => rfl

end SignRequest

namespace Gate

/-! ## How far a call comes -/

/-- That signed URLs are in use, with an endpoint and a path of a seed. -/
structure IsConfigured (gate : Gate) (endpoint : String) (seedPath : Path) : Prop where
  enabled : gate.config.useSignedUrl = true
  endpoint : gate.config.endpoint? = some endpoint
  seedPath : gate.config.seed? = some seedPath

/-- That a call comes to read the image, at the path `media`, and is to read the seed at `seedPath`
after it. -/
structure ReachesImage (gate : Gate) (media seedPath : Path) : Prop where
  configured : ∃ endpoint, gate.IsConfigured endpoint seedPath
  drive : ∃ drive, Device.resolveVolume gate.probe gate.config.volumeLabel = .ok drive
    ∧ media = Device.mediaPath gate.config.mediaRelativePath drive

/-- That a call has read the image and comes to read the seed, at the path `seedPath`. -/
structure ReachesSeed (gate : Gate) (seedPath : Path) : Prop where
  image : ∃ media content, gate.ReachesImage media seedPath
    ∧ gate.files.readBytes media = .ok content

variable {gate : Gate} {endpoint resource : String} {media seedPath : Path}

/-- A path of a seed that is set is not empty. -/
theorem IsConfigured.isEmpty_seedPath (h : gate.IsConfigured endpoint seedPath) :
    seedPath.isEmpty = false := by
  obtain ⟨-, hset⟩ := Option.filter_eq_some_iff.mp h.seedPath
  simpa using hset

/-- Without a configuration a call fails for that reason. -/
theorem prepare_of_not_isConfigured
    (h : ¬ ∃ endpoint seedPath, gate.IsConfigured endpoint seedPath) :
    ∃ e : GateError, gate.prepare resource = .error e ∧ e.kind = .configuration := by
  rw [prepare_eq]
  rcases henabled : gate.config.useSignedUrl with _ | _
  · exact ⟨.disabled, rfl, rfl⟩
  rcases hendpoint : gate.config.endpoint? with _ | endpoint
  · exact ⟨.missingEndpoint, rfl, rfl⟩
  rcases hseedPath : gate.config.seed? with _ | seedPath
  · exact ⟨.missingSeedPath, rfl, rfl⟩
  · exact absurd ⟨endpoint, seedPath, henabled, hendpoint, hseedPath⟩ h

/-- With a configuration a call goes on to the volume. -/
theorem IsConfigured.prepare_eq (h : gate.IsConfigured endpoint seedPath) :
    gate.prepare resource = (do
      let drive ← (Device.resolveVolume gate.probe gate.config.volumeLabel).mapError
        .volumeResolution
      let hash ← (ContentHash.ofFile gate.files
        (Device.mediaPath gate.config.mediaRelativePath drive)).mapError .hashFailure
      let seed ← (Seed.load gate.files seedPath).mapError .seedLoad
      let macs ← gate.probe.macAddresses.mapError .macAddresses
      return ⟨endpoint, .ofSeed hash macs resource seed⟩) := by
  rw [Gate.prepare_eq, h.enabled, h.endpoint, h.seedPath]
  rfl

/-- A call that comes to the image fails there if it cannot be read. -/
theorem ReachesImage.prepare_eq {cause : IoFailure} (h : gate.ReachesImage media seedPath)
    (hread : gate.files.readBytes media = .error cause) :
    gate.prepare resource = .error (.hashFailure ⟨media, cause⟩) := by
  obtain ⟨endpoint, hconfigured⟩ := h.configured
  obtain ⟨drive, hdrive, hmedia⟩ := h.drive
  rw [hconfigured.prepare_eq, hdrive, Steps.mapError_ok]
  show (do let hash ← (ContentHash.ofFile gate.files _).mapError GateError.hashFailure; _) = _
  rw [ContentHash.ofFile_eq, ← hmedia, hread]
  rfl

/-- A call that comes to the seed goes on with what can be loaded. -/
theorem ReachesSeed.prepare_eq (h : gate.ReachesSeed seedPath) :
    ∃ endpoint hash, gate.prepare resource = (do
      let seed ← (Seed.load gate.files seedPath).mapError .seedLoad
      let macs ← gate.probe.macAddresses.mapError .macAddresses
      return ⟨endpoint, .ofSeed hash macs resource seed⟩) := by
  obtain ⟨media, image, hreaches, hread⟩ := h.image
  obtain ⟨endpoint, hconfigured⟩ := hreaches.configured
  obtain ⟨drive, hdrive, hmedia⟩ := hreaches.drive
  refine ⟨endpoint, ContentHash.ofBytes image, ?_⟩
  rw [hconfigured.prepare_eq, hdrive, Steps.mapError_ok]
  show (do let hash ← (ContentHash.ofFile gate.files _).mapError GateError.hashFailure; _) = _
  rw [ContentHash.ofFile_eq, ← hmedia, hread]
  rfl

theorem ReachesSeed.isEmpty_seedPath (h : gate.ReachesSeed seedPath) :
    seedPath.isEmpty = false := by
  obtain ⟨media, image, hreaches, hread⟩ := h.image
  obtain ⟨endpoint, hconfigured⟩ := hreaches.configured
  exact hconfigured.isEmpty_seedPath

/-! ## Kinds and what happened -/

variable {σ : Type}

/-- What has happened in a call that fails with a failure of some kind. -/
def Happened (gate : Gate) (resource : String) (network : Transport σ) (state : σ) :
    FailureKind → Prop
  | .configuration => ¬ ∃ endpoint seedPath, gate.IsConfigured endpoint seedPath
  | .volumeNotFound =>
    (∃ endpoint seedPath, gate.IsConfigured endpoint seedPath)
      ∧ ∃ cause, Device.resolveVolume gate.probe gate.config.volumeLabel = .error cause
  -- the image was come to and could not be read, or the seed was and could not be read as a text
  | .io =>
    (∃ media seedPath cause, gate.ReachesImage media seedPath
      ∧ gate.files.readBytes media = .error cause)
      ∨ ∃ seedPath, gate.ReachesSeed seedPath ∧ gate.files.LacksText seedPath
  | .seedLoad =>
    ∃ seedPath text, gate.ReachesSeed seedPath ∧ gate.files.readText seedPath = .ok text
      ∧ Seed.IsRejected text
  | .device =>
    (∃ seedPath seed, gate.ReachesSeed seedPath ∧ Seed.load gate.files seedPath = .ok seed)
      ∧ ∃ cause, gate.probe.macAddresses = .error cause
  | .transport =>
    ∃ post cause, (gate.signedUrl resource network state).posts = [post]
      ∧ (network.post state post).2 = .error cause
  | .remoteProtocol =>
    ∃ post response, (gate.signedUrl resource network state).posts = [post]
      ∧ (network.post state post).2 = .ok response
  | .stateStore => False

variable {network : Transport σ} {state : σ} {e : GateError} {kind : FailureKind}

/-- A call comes to an end somewhere: before a file, at the image, at the seed, behind it, or with
an answer. -/
theorem exists_happened (gate : Gate) (resource : String) (network : Transport σ) (state : σ) :
    ∃ kind, gate.Happened resource network state kind := by
  by_cases hnone : ¬ ∃ endpoint seedPath, gate.IsConfigured endpoint seedPath
  · exact ⟨.configuration, hnone⟩
  obtain ⟨endpoint, seedPath, hset⟩ := Classical.not_not.mp hnone
  rcases hdrive : Device.resolveVolume gate.probe gate.config.volumeLabel with cause | drive
  · exact ⟨.volumeNotFound, ⟨endpoint, seedPath, hset⟩, cause, hdrive⟩
  have himage : gate.ReachesImage (Device.mediaPath gate.config.mediaRelativePath drive) seedPath :=
    ⟨⟨endpoint, hset⟩, drive, hdrive, rfl⟩
  rcases hread : gate.files.readBytes (Device.mediaPath gate.config.mediaRelativePath drive)
    with cause | image
  · exact ⟨.io, Or.inl ⟨_, seedPath, cause, himage, hread⟩⟩
  have hseed : gate.ReachesSeed seedPath := ⟨_, image, himage, hread⟩
  rcases hload : Seed.load gate.files seedPath with cause | seed
  · rcases Seed.unread_or_rejected hseed.isEmpty_seedPath hload with hlacks
      | ⟨text, htext, hrejected⟩
    · exact ⟨.io, Or.inr ⟨seedPath, hseed, hlacks⟩⟩
    · exact ⟨.seedLoad, seedPath, text, hseed, htext, hrejected⟩
  rcases hmacs : gate.probe.macAddresses with cause | macs
  · exact ⟨.device, ⟨seedPath, seed, hseed, hload⟩, cause, hmacs⟩
  -- everything is there for a request
  have hprepare : gate.prepare resource = .ok (Findings.submission
      ⟨endpoint, seedPath, drive, ContentHash.ofBytes image, seed, macs⟩ resource) := by
    refine prepare_eq_ok_iff.mpr ⟨_,
      ⟨hset.enabled, hset.endpoint, hset.seedPath, hdrive, ?_, hload, hmacs⟩, rfl⟩
    rw [ContentHash.ofFile_eq, hread]
  have hposts := congrArg Exchange.posts (signedUrl_of_prepare network state hprepare)
  rcases hanswer : (network.post state (Findings.submission _ resource).post).2
    with cause | response
  · exact ⟨.transport, _, cause, hposts, hanswer⟩
  · exact ⟨.remoteProtocol, _, response, hposts, hanswer⟩

/-- A call that fails before it posts fails in the end with the same failure. -/
theorem eq_of_prepare_error {e' : GateError}
    (h : (gate.signedUrl resource network state).result = .error e)
    (hprepare : gate.prepare resource = .error e') : e = e' := by
  rw [signedUrl_of_prepare_error network state hprepare] at h
  exact (Except.error.inj h).symm

/-- A call that posts and fails has been given an answer that does not pass. -/
theorem verify_of_posts {post : Post}
    (h : (gate.signedUrl resource network state).result = .error e)
    (hposts : (gate.signedUrl resource network state).posts = [post]) :
    ∃ (request : SignRequest) (cause : SignError),
      request.verify (network.post state post).2 = .error cause ∧ e = .signFailure cause := by
  rcases hprepare : gate.prepare resource with e' | submission
  · rw [signedUrl_of_prepare_error network state hprepare] at hposts
    cases hposts
  · rw [signedUrl_of_prepare network state hprepare] at hposts h
    obtain rfl : submission.post = post := List.singleton_inj.mp hposts
    refine ⟨submission.request, ?_⟩
    rcases hverify : submission.request.verify (network.post state submission.post).2
      with cause | hash
    · rw [hverify] at h
      exact ⟨cause, rfl, (Except.error.inj h).symm⟩
    · rw [hverify] at h
      cases h

/-- What has happened in a call that fails is what its failure says. -/
theorem kind_of_happened (h : (gate.signedUrl resource network state).result = .error e)
    (hhappened : gate.Happened resource network state kind) : e.kind = kind := by
  cases kind with
  | configuration =>
    obtain ⟨e', hprepare, hkind⟩ := prepare_of_not_isConfigured hhappened
    rw [eq_of_prepare_error h hprepare, hkind]
  | volumeNotFound =>
    obtain ⟨⟨endpoint, seedPath, hset⟩, cause, hdrive⟩ := hhappened
    have hprepare : gate.prepare resource = .error (.volumeResolution cause) := by
      rw [hset.prepare_eq, hdrive]
      rfl
    rw [eq_of_prepare_error h hprepare, GateError.kind]
  | io =>
    rcases hhappened with ⟨media, seedPath, cause, himage, hread⟩ | ⟨seedPath, hseed, hlacks⟩
    · rw [eq_of_prepare_error h (himage.prepare_eq hread), GateError.kind]
    · obtain ⟨failure, hread⟩ := FileSource.lacksText_iff.mp hlacks
      obtain ⟨cause, hload, hio⟩ := Seed.load_of_unread hseed.isEmpty_seedPath hread
      obtain ⟨endpoint, hash, hprepare⟩ := hseed.prepare_eq
      rw [hload] at hprepare
      rw [eq_of_prepare_error h hprepare, GateError.kind, if_pos hio]
  | seedLoad =>
    obtain ⟨seedPath, text, hseed, hread, hrejected⟩ := hhappened
    obtain ⟨cause, hload, hio⟩ := Seed.load_of_rejected hseed.isEmpty_seedPath hread hrejected
    obtain ⟨endpoint, hash, hprepare⟩ := hseed.prepare_eq
    rw [hload] at hprepare
    rw [eq_of_prepare_error h hprepare, GateError.kind, hio]
    rfl
  | device =>
    obtain ⟨⟨seedPath, seed, hseed, hload⟩, cause, hmacs⟩ := hhappened
    obtain ⟨endpoint, hash, hprepare⟩ := hseed.prepare_eq
    rw [hload, hmacs] at hprepare
    rw [eq_of_prepare_error h hprepare, GateError.kind]
  | transport =>
    obtain ⟨post, cause, hposts, hanswer⟩ := hhappened
    obtain ⟨request, e', hverify, rfl⟩ := verify_of_posts h hposts
    rw [hanswer] at hverify
    exact SignRequest.kind_of_undelivered hverify
  | remoteProtocol =>
    obtain ⟨post, response, hposts, hanswer⟩ := hhappened
    obtain ⟨request, e', hverify, rfl⟩ := verify_of_posts h hposts
    rw [hanswer] at hverify
    exact SignRequest.kind_of_delivered hverify
  | stateStore => exact absurd hhappened not_false

/-- The kinds of failures that come with a post are those of exit code 5. -/
theorem exitCode_of_happened (h : gate.Happened resource network state e.kind) :
    (∃ post, (gate.signedUrl resource network state).posts = [post])
        ∧ (Command.Failure.verification e).exitCode = 5
      ∨ e.kind ∈ [.configuration, .volumeNotFound, .io, .seedLoad, .device]
        ∧ (Command.Failure.verification e).exitCode ∈ [1, 2, 3, 4] := by
  rw [Command.Failure.exitCode]
  cases hkind : e.kind with
  | configuration => exact Or.inr (by decide)
  | volumeNotFound => exact Or.inr (by decide)
  | io => exact Or.inr (by decide)
  | seedLoad => exact Or.inr (by decide)
  | device => exact Or.inr (by decide)
  | transport =>
    rw [hkind] at h
    obtain ⟨post, cause, hposts, -⟩ := h
    exact Or.inl ⟨⟨post, hposts⟩, rfl⟩
  | remoteProtocol =>
    rw [hkind] at h
    obtain ⟨post, response, hposts, -⟩ := h
    exact Or.inl ⟨⟨post, hposts⟩, rfl⟩
  | stateStore =>
    rw [hkind] at h
    exact absurd h not_false

/-- A failure that does not come from the answer comes before any post. -/
theorem posts_eq_nil (h : (gate.signedUrl resource network state).result = .error e)
    (hkind : e.kind ≠ .transport ∧ e.kind ≠ .remoteProtocol) :
    (gate.signedUrl resource network state).posts = [] := by
  rcases hprepare : gate.prepare resource with e' | submission
  · rw [signedUrl_of_prepare_error network state hprepare]
  · have hposts := congrArg Exchange.posts (signedUrl_of_prepare network state hprepare)
    rcases hanswer : (network.post state submission.post).2 with cause | response
    · have hhappened : gate.Happened resource network state .transport :=
        ⟨_, cause, hposts, hanswer⟩
      exact absurd (kind_of_happened h hhappened) hkind.1
    · have hhappened : gate.Happened resource network state .remoteProtocol :=
        ⟨_, response, hposts, hanswer⟩
      exact absurd (kind_of_happened h hhappened) hkind.2

/-- A failed call failed with the kind of what happened in it, and leads to exit code 5 if it has
posted, which it then has once, and to another one that is neither 0 nor 6 if it has not. -/
theorem kind_tells_what_happened (h : (gate.signedUrl resource network state).result = .error e) :
    (∀ kind, e.kind = kind ↔ gate.Happened resource network state kind)
    ∧ ((∃ post, (gate.signedUrl resource network state).posts = [post])
          ∧ (Command.Failure.verification e).exitCode = 5
        ∨ (gate.signedUrl resource network state).posts = []
          ∧ (Command.Failure.verification e).exitCode ∈ [1, 2, 3, 4]) := by
  obtain ⟨kind, hhappened⟩ := exists_happened gate resource network state
  obtain rfl := kind_of_happened h hhappened
  refine ⟨fun kind => ⟨?_, kind_of_happened h⟩, ?_⟩
  · rintro rfl
    exact hhappened
  · rcases exitCode_of_happened hhappened with hposted | ⟨hkind, hcode⟩
    · exact Or.inl hposted
    · refine Or.inr ⟨posts_eq_nil h ?_, hcode⟩
      constructor
      · intro htransport
        rw [htransport] at hkind
        exact absurd hkind (by decide)
      · intro hremote
        rw [hremote] at hkind
        exact absurd hkind (by decide)

/-- A gate on a device whose volume holds no image. -/
def withoutImage : Gate :=
  ⟨Config.enabled "http://sign" ⟨"seed.json"⟩, .fixed [⟨"BEYONDCORP", "D:"⟩] [] none none,
    MemoryFiles.empty.source⟩

/-- Where there is no image a call comes as far as reading it, and has posted nothing. -/
theorem kind_tells_what_happened_withoutImage :
    ∃ e, (withoutImage.signedUrl "a.yaml" .queue []).result = .error e
      ∧ withoutImage.Happened "a.yaml" .queue [] .io
      ∧ (withoutImage.signedUrl "a.yaml" .queue []).posts = []
      ∧ (Command.Failure.verification e).exitCode ∈ [1, 2, 3, 4] := by
  have hendpoint : withoutImage.config.endpoint? = some "http://sign" := by decide +kernel
  have hdrive : Device.resolveVolume withoutImage.probe withoutImage.config.volumeLabel = .ok "D" :=
    rfl
  have hread : withoutImage.files.readBytes (Device.mediaPath defaultMediaRelativePath "D")
      = .error (MemoryFiles.missing _) := rfl
  have himage : withoutImage.ReachesImage (Device.mediaPath defaultMediaRelativePath "D")
      ⟨"seed.json"⟩ :=
    ⟨⟨"http://sign", rfl, hendpoint, by decide +kernel⟩, "D", hdrive, rfl⟩
  have hprepare : withoutImage.prepare "a.yaml"
      = .error (.hashFailure ⟨_, MemoryFiles.missing _⟩) :=
    himage.prepare_eq hread
  have hresult := congrArg Exchange.result (signedUrl_of_prepare_error .queue [] hprepare)
  have htold := kind_tells_what_happened hresult
  have hunposted := htold.2.resolve_left fun hposted => absurd hposted.2 (by decide)
  exact ⟨_, hresult, (htold.1 .io).mp rfl, hunposted⟩

end Gate

end BootTrust
