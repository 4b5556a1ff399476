import BootTrust.Gate.Session
import BootTrust.MemoryFiles
import BootTrust.Proofs.Gate.Prepared
import BootTrust.Proofs.Text.Trimming
/-
The first failure wins. For each step there is what it fails with on its own, whatever the
other steps do (`Gate.failure?`). Any of them may fail at the same time; the answer is the
failure of the first one in the order of the steps, it bears the name of this step, and if the
step comes before the signing, nothing has been posted. If all of them go well there is one
post, and the answer to it is final.

In a run of gates each call posts what it posts by itself, so the posts of the run are those of its
calls one after the other, and no call for a signed URL touches the store.
-/

set_option autoImplicit false

namespace BootTrust

/-! ## What counts as set -/

namespace Config

variable {config : Config}

/-- No endpoint is there if and only if none is set or the one that is set is blank. -/
theorem endpoint?_eq_none_iff :
    config.endpoint? = none ↔ config.signEndpoint.all Text.isAllBlank = true := by
  rw [endpoint?]
  rcases config.signEndpoint with _ | raw
  · simp
  · rw [Option.map_some, Option.filter_some, Text.isEmpty_trim, Option.all_some]
    rcases Text.isAllBlank raw with _ | _
    · simp
    · simp

/-- No path of a seed is there if and only if none is set or the one that is set is empty. -/
theorem seed?_eq_none_iff : config.seed? = none ↔ config.seedPath.all Path.isEmpty = true := by
  rw [seed?]
  rcases config.seedPath with _ | p
  · simp
  · rw [Option.filter_some, Option.all_some]
    rcases p.isEmpty with _ | _
    · simp
    · simp

end Config

/-! ## The steps, each on its own -/

namespace FailureReason

/-- The steps up to the request, in their order. -/
def preparing : List FailureReason :=
  [.disabled, .missingEndpoint, .missingSeedPath, .volumeResolution, .hashFailure, .seedLoad,
    .macAddresses]

/-- All steps in their order. -/
def order : List FailureReason :=
  preparing ++ [.signFailure]

theorem mem_order (step : FailureReason) : step ∈ order := by
  cases step <;> decide

theorem mem_preparing {step : FailureReason} (h : step ≠ .signFailure) : step ∈ preparing := by
  rcases List.mem_append.mp (mem_order step) with hmem | hsign
  · exact hmem
  · exact absurd (List.mem_singleton.mp hsign) h

end FailureReason

namespace Gate

variable {σ : Type}

/-- What a step fails with on its own. A step that works on what others find does not fail if there
is nothing to work on. -/
def failure? (gate : Gate) (resource : String) (transport : Transport σ) (state : σ) :
    FailureReason → Option GateError
  | .disabled => if gate.config.useSignedUrl then none else some .disabled
  | .missingEndpoint =>
    if gate.config.signEndpoint.all Text.isAllBlank then some .missingEndpoint else none
  | .missingSeedPath =>
    if gate.config.seedPath.all Path.isEmpty then some .missingSeedPath else none
  | .volumeResolution =>
    (Steps.failure? (Device.resolveVolume gate.probe gate.config.volumeLabel)).map .volumeResolution
  | .hashFailure => do
    let drive ← (Device.resolveVolume gate.probe gate.config.volumeLabel).toOption
    let media := Device.mediaPath gate.config.mediaRelativePath drive
    (Steps.failure? (ContentHash.ofFile gate.files media)).map .hashFailure
  | .seedLoad => do
    let seedPath ← gate.config.seed?
    (Steps.failure? (Seed.load gate.files seedPath)).map .seedLoad
  | .macAddresses => (Steps.failure? gate.probe.macAddresses).map .macAddresses
  | .signFailure => do
    let endpoint ← gate.config.endpoint?
    let seedPath ← gate.config.seed?
    let drive ← (Device.resolveVolume gate.probe gate.config.volumeLabel).toOption
    let media := Device.mediaPath gate.config.mediaRelativePath drive
    let hash ← (ContentHash.ofFile gate.files media).toOption
    let seed ← (Seed.load gate.files seedPath).toOption
    let macs ← gate.probe.macAddresses.toOption
    let request := SignRequest.ofSeed hash macs resource seed
    let answer := (transport.post state (request.post endpoint)).2
    (Steps.failure? (request.verify answer)).map .signFailure

variable (gate : Gate) (resource : String) (transport : Transport σ) (state : σ)

/-- A failure bears the name of its step. -/
theorem reason_of_failure? {step : FailureReason} {e : GateError}
    (h : gate.failure? resource transport state step = some e) : e.reason = step := by
  -- every step reports under its own name, whatever it works on
  cases step with
  | disabled =>
    rw [failure?] at h
    split at h
    · simp at h
    · rw [← Option.some_inj.mp h, GateError.reason]
  | missingEndpoint =>
    rw [failure?] at h
    split at h
    · rw [← Option.some_inj.mp h, GateError.reason]
    · simp at h
  | missingSeedPath =>
    rw [failure?] at h
    split at h
    · rw [← Option.some_inj.mp h, GateError.reason]
    · simp at h
  | volumeResolution =>
    obtain ⟨cause, -, rfl⟩ := Option.map_eq_some_iff.mp h
    rfl
  | hashFailure =>
    obtain ⟨drive, -, h⟩ := Option.bind_eq_some_iff.mp h
    obtain ⟨cause, -, rfl⟩ := Option.map_eq_some_iff.mp h
    rfl
  | seedLoad =>
    obtain ⟨seedPath, -, h⟩ := Option.bind_eq_some_iff.mp h
    obtain ⟨cause, -, rfl⟩ := Option.map_eq_some_iff.mp h
    rfl
  | macAddresses =>
    obtain ⟨cause, -, rfl⟩ := Option.map_eq_some_iff.mp h
    rfl
  | signFailure =>
    obtain ⟨endpoint, -, h⟩ := Option.bind_eq_some_iff.mp h
    obtain ⟨seedPath, -, h⟩ := Option.bind_eq_some_iff.mp h
    obtain ⟨drive, -, h⟩ := Option.bind_eq_some_iff.mp h
    obtain ⟨hash, -, h⟩ := Option.bind_eq_some_iff.mp h
    obtain ⟨seed, -, h⟩ := Option.bind_eq_some_iff.mp h
    obtain ⟨macs, -, h⟩ := Option.bind_eq_some_iff.mp h
    obtain ⟨cause, -, rfl⟩ := Option.map_eq_some_iff.mp h
    rfl

/-- The endpoint is missing when there is none to take. -/
theorem failure?_missingEndpoint : gate.failure? resource transport state .missingEndpoint
    = Steps.failure? (Steps.take gate.config.endpoint? GateError.missingEndpoint) := by
  rw [failure?]
  by_cases hblank : gate.config.signEndpoint.all Text.isAllBlank = true
  · rw [if_pos hblank, Config.endpoint?_eq_none_iff.mpr hblank]
    rfl
  · rw [if_neg hblank]
    rcases hendpoint : gate.config.endpoint? with _ | endpoint
    · exact absurd (Config.endpoint?_eq_none_iff.mp hendpoint) hblank
    · rfl

/-- The path of the seed is missing when there is none to take. -/
theorem failure?_missingSeedPath : gate.failure? resource transport state .missingSeedPath
    = Steps.failure? (Steps.take gate.config.seed? GateError.missingSeedPath) := by
  rw [failure?]
  by_cases hempty : gate.config.seedPath.all Path.isEmpty = true
  · rw [if_pos hempty, Config.seed?_eq_none_iff.mpr hempty]
    rfl
  · rw [if_neg hempty]
    rcases hseedPath : gate.config.seed? with _ | seedPath
    · exact absurd (Config.seed?_eq_none_iff.mp hseedPath) hempty
    · rfl

/-- The steps up to the request fail with the first of their failures. -/
theorem failure?_prepare : Steps.failure? (gate.prepare resource)
    = FailureReason.preparing.findSome? (gate.failure? resource transport state) := by
  rw [prepare_eq, FailureReason.preparing]
  -- step by step: what it fails with, and what the rest fails with when it has gone well
  refine Steps.failure?_bind ?_ fun _ _ => ?_
  · rw [failure?, Steps.check]
    rcases gate.config.useSignedUrl with _ | _
    · rfl
    · rfl
  refine Steps.failure?_bind (gate.failure?_missingEndpoint ..) fun endpoint hendpoint => ?_
  refine Steps.failure?_bind (gate.failure?_missingSeedPath ..) fun seedPath hseedPath => ?_
  refine Steps.failure?_bind ?_ fun drive hdrive => ?_
  · rw [failure?, Steps.failure?_mapError]
  -- the image is looked for on the drive that was found
  refine Steps.failure?_bind ?_ fun hash hhash => ?_
  · rw [failure?, Steps.mapError_eq_ok_iff.mp hdrive, Steps.failure?_mapError]
    rfl
  refine Steps.failure?_bind ?_ fun seed hseed => ?_
  · rw [failure?, Steps.take_eq_ok_iff.mp hseedPath, Steps.failure?_mapError]
    rfl
  refine Steps.failure?_bind ?_ fun macs hmacs => ?_
  · rw [failure?, Steps.failure?_mapError]
  rfl

/-- When a request has been made, the signing fails with what the answer is found wanting in. -/
theorem failure?_signFailure {submission : Submission}
    (h : gate.prepare resource = .ok submission) :
    gate.failure? resource transport state .signFailure
      = (Steps.failure? (submission.request.verify (transport.post state submission.post).2)).map
        .signFailure := by
  obtain ⟨found, hfound, rfl⟩ := prepare_eq_ok_iff.mp h
  rw [failure?, hfound.endpoint, hfound.seedPath, hfound.drive, hfound.macs]
  simp only [Except.toOption, bind, Option.bind, hfound.hash, hfound.seed]
  rfl

/-- A call fails with the first of the failures of its steps. -/
theorem failure?_signedUrl : Steps.failure? (gate.signedUrl resource transport state).result
    = FailureReason.order.findSome? (gate.failure? resource transport state) := by
  rw [FailureReason.order, List.findSome?_append, ← failure?_prepare]
  rcases hprepare : gate.prepare resource with e | submission
  · rw [signedUrl_of_prepare_error transport state hprepare]
    rfl
  · rw [signedUrl_of_prepare transport state hprepare, Steps.failure?_mapError,
      ← failure?_signFailure gate resource transport state hprepare, List.findSome?_singleton]
    rfl

/-! ## Calls -/

/-- What holds of a call, whichever of its steps would fail on their own. -/
structure FailsFirst : Prop where
  /-- The error of a call is that of the first step that fails, and names this step. -/
  error : ∀ e, (gate.signedUrl resource transport state).result = .error e ↔
    ∃ earlier later, FailureReason.order = earlier ++ e.reason :: later
      ∧ gate.failure? resource transport state e.reason = some e
      ∧ ∀ step ∈ earlier, gate.failure? resource transport state step = none
  /-- A call goes well if and only if no step fails. -/
  ok : (∃ hash, (gate.signedUrl resource transport state).result = .ok hash) ↔
    ∀ step, gate.failure? resource transport state step = none
  /-- If a step before the signing fails, nothing is posted, and the transport is left alone. -/
  silent : ∀ step, step ≠ .signFailure → gate.failure? resource transport state step ≠ none →
    (gate.signedUrl resource transport state).posts = []
      ∧ (gate.signedUrl resource transport state).state = state
  /-- Otherwise the request is posted once, whatever the answer. -/
  single : (∀ step, step ≠ .signFailure → gate.failure? resource transport state step = none) →
    ∃ submission, gate.prepare resource = .ok submission
      ∧ (gate.signedUrl resource transport state).posts = [submission.post]
      ∧ (gate.signedUrl resource transport state).state = (transport.post state submission.post).1

theorem failsFirst : gate.FailsFirst resource transport state where
  error e := by
    rw [← Steps.failure?_eq_some_iff, failure?_signedUrl, List.findSome?_eq_some_iff]
    constructor
    · rintro ⟨earlier, step, later, horder, hfails, hearlier⟩
      obtain rfl := gate.reason_of_failure? resource transport state hfails
      exact ⟨earlier, later, horder, hfails, hearlier⟩
    · rintro ⟨earlier, later, horder, hfails, hearlier⟩
      exact ⟨earlier, e.reason, later, horder, hfails, hearlier⟩
  ok := by
    rw [← Steps.failure?_eq_none_iff, failure?_signedUrl, List.findSome?_eq_none_iff]
    constructor
    · intro h step
      exact h step (FailureReason.mem_order step)
    · intro h step _
      exact h step
  silent step hstep hfails := by
    rcases hprepare : gate.prepare resource with e | submission
    · rw [signedUrl_of_prepare_error transport state hprepare]
      exact ⟨rfl, rfl⟩
    -- a request means that none of the steps before it fails
    · have hnone : Steps.failure? (gate.prepare resource) = none :=
        Steps.failure?_eq_none_iff.mpr ⟨submission, hprepare⟩
      rw [failure?_prepare gate resource transport state, List.findSome?_eq_none_iff] at hnone
      exact absurd (hnone step (FailureReason.mem_preparing hstep)) hfails
  single h := by
    have hnone : Steps.failure? (gate.prepare resource) = none := by
      rw [failure?_prepare gate resource transport state, List.findSome?_eq_none_iff]
      intro step hstep
      refine h step fun hsign => ?_
      rw [hsign] at hstep
      exact absurd hstep (by decide)
    obtain ⟨submission, hprepare⟩ := Steps.failure?_eq_none_iff.mp hnone
    rw [signedUrl_of_prepare transport state hprepare]
    exact ⟨submission, hprepare, rfl, rfl⟩

end Gate

/-! ## Runs -/

namespace GateEvent

variable {σ τ : Type}

/-- Whether an event is a call for a signed URL. -/
def IsSignedUrl (event : GateEvent σ τ) : Prop :=
  ∃ gate resource, event.call = .signedUrl gate resource

/-- What the call of an event posts by itself, with the transport as it is before the event. -/
def ownPosts (transport : Transport τ) (event : GateEvent σ τ) : List Post :=
  match event.call with
  | .signedUrl gate resource => (gate.signedUrl resource transport event.before.network).posts
  | _ => []

/-- What holds of an event in a run that began with `first`, after the events of `past`. -/
structure IsOrderly (transport : Transport τ) (first : Session σ τ) (past : List (GateEvent σ τ))
    (event : GateEvent σ τ) : Prop where
  /-- A call for a signed URL gets what it would get by itself, and the store is as it was. -/
  call : ∀ gate resource, event.call = .signedUrl gate resource →
    event.reply = .signedUrl (gate.signedUrl resource transport event.before.network).result
      ∧ event.after.network = (gate.signedUrl resource transport event.before.network).state
      ∧ event.after.store = event.before.store
  /-- The posts so far are those of the calls, one after the other. -/
  posts : event.after.posts = first.posts ++ (past ++ [event]).flatMap (ownPosts transport)
  /-- As long as all calls are for signed URLs, the store is what it was at first. -/
  store : (∀ e ∈ past ++ [event], e.IsSignedUrl) → event.after.store = first.store

/-- What is kept up from event to event. -/
structure Tidy (transport : Transport τ) (first : Session σ τ) (past : List (GateEvent σ τ))
    (session : Session σ τ) : Prop where
  posts : session.posts = first.posts ++ past.flatMap (ownPosts transport)
  store : (∀ e ∈ past, e.IsSignedUrl) → session.store = first.store

variable {store : StateStore σ} {transport : Transport τ} {first : Session σ τ}
  {past : List (GateEvent σ τ)} {event : GateEvent σ τ}

/-- A call for a signed URL changes the session by what it does itself. -/
theorem step_signedUrl (session : Session σ τ) (gate : Gate) (resource : String) :
    Session.step store transport session (.signedUrl gate resource)
      = (⟨session.store, (gate.signedUrl resource transport session.network).state,
          session.posts ++ (gate.signedUrl resource transport session.network).posts⟩,
        .signedUrl (gate.signedUrl resource transport session.network).result) := rfl

/-- Each call adds its own posts, and only calls of other kinds change the store. -/
theorem Tidy.step (hstep : Session.step store transport event.before event.call
    = (event.after, event.reply)) (htidy : Tidy transport first past event.before) :
    Tidy transport first (past ++ [event]) event.after := by
  have hposts : event.after.posts = event.before.posts ++ ownPosts transport event := by
    have hafter : (Session.step store transport event.before event.call).1 = event.after := by
      rw [hstep]
    rw [← hafter, ownPosts]
    rcases event.call with gate | ⟨gate, resource⟩ | ⟨key, value⟩
    · exact (List.append_nil _).symm
    · rfl
    · exact (List.append_nil _).symm
  refine ⟨?_, fun hall => ?_⟩
  · rw [hposts, htidy.posts, List.flatMap_append, List.append_assoc, List.flatMap_singleton]
  · obtain ⟨gate, resource, hcall⟩ := hall event (List.mem_append_right past List.mem_cons_self)
    rw [hcall, step_signedUrl] at hstep
    rw [← (Prod.mk.inj hstep).1]
    exact htidy.store fun e he => hall e (List.mem_append_left _ he)

/-- Every event of a run is orderly. -/
theorem isOrderly {calls : List GateCall} {future : List (GateEvent σ τ)}
    (h : trace (Session.step store transport) first calls = past ++ event :: future) :
    IsOrderly transport first past event := by
  have hstart : Tidy transport first [] first := ⟨(List.append_nil _).symm, fun _ => rfl⟩
  have hbefore : Tidy transport first past event.before :=
    Event.invariant_before hstart (fun _ _ _ hstep htidy => htidy.step hstep) h
  obtain ⟨-, hstep⟩ := Event.of_mem_trace (h ▸ List.mem_append_right past List.mem_cons_self)
  have hafter := hbefore.step hstep
  refine ⟨fun gate resource hcall => ?_, hafter.posts, hafter.store⟩
  rw [hcall, step_signedUrl] at hstep
  obtain ⟨hsession, hreply⟩ := Prod.mk.inj hstep
  rw [← hsession, ← hreply]
  exact ⟨rfl, rfl, rfl⟩

end GateEvent

/-- The first failure of a call wins, whichever steps would fail, and in a run of calls each one
posts what it posts by itself. -/
theorem Gate.signedUrl_fails_first {σ τ : Type} (transport : Transport τ) :
    (∀ (gate : Gate) (resource : String) (state : τ), gate.FailsFirst resource transport state)
    ∧ ∀ (store : StateStore σ) (first : Session σ τ) (calls : List GateCall)
      (past future : List (GateEvent σ τ)) (event : GateEvent σ τ),
      trace (Session.step store transport) first calls = past ++ event :: future →
      GateEvent.IsOrderly transport first past event :=
  ⟨fun gate resource state => gate.failsFirst resource transport state,
    fun _ _ _ _ _ _ h => GateEvent.isOrderly h⟩

/-- A gate that uses signed URLs with a blank endpoint, no seed and no volume. -/
def Gate.halfSet : Gate :=
  ⟨{ Config.default with useSignedUrl := true, signEndpoint := some " " }, .fixed [] [] none none,
    MemoryFiles.empty.source⟩

/-- Three steps fail at once, and the endpoint comes first. A second call after it is orderly. -/
theorem Gate.signedUrl_fails_first_halfSet :
    (Gate.halfSet.signedUrl "a.yaml" .queue []).result = .error .missingEndpoint
      ∧ (Gate.halfSet.signedUrl "a.yaml" .queue []).posts = []
      ∧ ∃ past event, trace (Session.step MemoryState.store .queue) ⟨.empty, [], []⟩
          [.signedUrl Gate.halfSet "a.yaml", .signedUrl Gate.halfSet "b.yaml"] = past ++ [event]
        ∧ GateEvent.IsOrderly .queue ⟨.empty, [], []⟩ past event := by
  obtain ⟨hcalls, hruns⟩ := signedUrl_fails_first (σ := SortedMap String) .queue
  have hcall : Gate.halfSet.FailsFirst "a.yaml" .queue [] := hcalls Gate.halfSet "a.yaml" []
  have hblank : Gate.halfSet.config.signEndpoint.all Text.isAllBlank = true := by decide +kernel
  have hendpoint : Gate.halfSet.failure? "a.yaml" .queue [] .missingEndpoint
      = some .missingEndpoint := by
    rw [failure?, if_pos hblank]
  have hdisabled : Gate.halfSet.failure? "a.yaml" .queue [] .disabled = none := rfl
  have hrun := hruns MemoryState.store ⟨.empty, [], []⟩
    [.signedUrl Gate.halfSet "a.yaml", .signedUrl Gate.halfSet "b.yaml"] [_] [] _ rfl
  refine ⟨(hcall.error .missingEndpoint).mpr ⟨[.disabled], _, rfl, hendpoint, ?_⟩, ?_,
    [_], _, rfl, hrun⟩
  · intro step hstep
    rw [List.mem_singleton.mp hstep]
    exact hdisabled
  · refine (hcall.silent .missingEndpoint (by decide) ?_).1
    rw [hendpoint]
    simp

end BootTrust
