import BootTrust.Command.Run
import BootTrust.Proofs.Command.Lines
import BootTrust.Proofs.Gate.Acceptance
import BootTrust.Proofs.Gate.Endpoints
/-
The configuration that a command works with. It has three layers: what the line or the environment
gives, what the file says, and the defaults. They are laid over one another member by member, and
only then is the result checked, so nothing gets to a gate that has not passed the check, from
whichever layer it comes (`Invocation.gate_eq_ok_iff`).

A gate checks its configuration no more. That it posts to an address nevertheless rests on the check
and the post looking at the same text.
-/

set_option autoImplicit false

namespace BootTrust.Command

/-! ## The layers -/

/-- That a configuration is what the file has that a line and its environment name, or the default
without one. -/
def NamesFile (environment : List (String × String)) (line : List String) (disk : Disk)
    (file : Config) : Prop :=
  match given? environment line .config with
  | some text => Config.load disk ⟨text⟩ = .ok file
  | none => file = .default

/-- That a configuration is a file with what a line and its environment give laid over it. -/
structure IsLayered (environment : List (String × String)) (line : List String)
    (file config : Config) : Prop where
  signEndpoint : config.signEndpoint = (given? environment line .signEndpoint).or file.signEndpoint
  seedPath : config.seedPath = ((given? environment line .seedPath).map Path.mk).or file.seedPath
  useSignedUrl : config.useSignedUrl = true
    ↔ file.useSignedUrl = true ∨ "--use-signed-url" ∈ optionWords line
  volumeLabel : config.volumeLabel = file.volumeLabel
  mediaRelativePath : config.mediaRelativePath = file.mediaRelativePath
  timeoutSeconds : config.timeoutSeconds = file.timeoutSeconds

variable {environment : List (String × String)} {line : List String} {invocation : Invocation}
  {disk : Disk} {file config : Config}

/-- What a gate is built of: a configuration that is what the layers make and passes the check, and
what the host has. -/
structure BuildsFrom {σ : Type} (environment : List (String × String)) (line : List String)
    (host : Host σ) (disk : Disk) (gate : Gate) (transport : Transport σ) : Prop where
  config : ∃ file, NamesFile environment line disk file
    ∧ IsLayered environment line file gate.config ∧ gate.config.validate = .ok ()
  probe : gate.probe = host.probe
  files : gate.files = disk.source
  client : host.client = .ok transport

namespace Invocation.IsSaidBy

theorem isLayered_iff (h : invocation.IsSaidBy environment line) :
    IsLayered environment line file config ↔ config = invocation.override file := by
  have huse : config.useSignedUrl = (invocation.useSignedUrl || file.useSignedUrl)
      ↔ (config.useSignedUrl = true
        ↔ file.useSignedUrl = true ∨ "--use-signed-url" ∈ optionWords line) := by
    rw [Bool.eq_iff_iff, Bool.or_eq_true, h.useSignedUrl, or_comm]
  have hlaid : invocation.override file = { file with
      useSignedUrl := invocation.useSignedUrl || file.useSignedUrl
      signEndpoint := (given? environment line .signEndpoint).or file.signEndpoint
      seedPath := ((given? environment line .seedPath).map Path.mk).or file.seedPath } := by
    simp only [override, h.signEndpoint, h.seedPath, Option.orElse_eq_orElse, Option.orElse_eq_or]
  constructor
  · intro hlayered
    rcases config with ⟨use, endpoint, seed, label, media, seconds⟩
    rw [hlaid, Config.mk.injEq]
    exact ⟨huse.mpr hlayered.useSignedUrl, hlayered.signEndpoint, hlayered.seedPath,
      hlayered.volumeLabel, hlayered.mediaRelativePath, hlayered.timeoutSeconds⟩
  · rintro rfl
    exact ⟨by rw [hlaid], by rw [hlaid], huse.mp rfl, rfl, rfl, rfl⟩

theorem namesFile_iff (h : invocation.IsSaidBy environment line) :
    NamesFile environment line disk file
      ↔ (match invocation.config with
          | some p => Config.load disk p
          | none => .ok .default) = .ok file := by
  rw [NamesFile, h.config]
  rcases given? environment line .config with _ | text
  · exact ⟨fun hfile => hfile ▸ rfl, fun hfile => (Except.ok.inj hfile).symm⟩
  · rfl

/-- A configuration is in force if and only if it is what the layers make, and passes the check. -/
theorem effectiveConfig_eq_ok_iff (h : invocation.IsSaidBy environment line) :
    invocation.effectiveConfig disk = .ok config ↔
      ∃ file, NamesFile environment line disk file ∧ IsLayered environment line file config
        ∧ config.validate = .ok () := by
  have hsteps : invocation.effectiveConfig disk
      = (match invocation.config with
          | some p => Config.load disk p
          | none => .ok .default) >>= fun file =>
          (invocation.override file).validate >>= fun _ => .ok (invocation.override file) := by
    rw [effectiveConfig]
    rcases invocation.config with _ | p
    · rfl
    · rfl
  simp only [hsteps, Steps.bind_eq_ok_iff, h.namesFile_iff, h.isLayered_iff]
  constructor
  · rintro ⟨file, hfile, ⟨⟩, hvalid, hconfig⟩
    obtain rfl := Except.ok.inj hconfig
    exact ⟨file, hfile, rfl, hvalid⟩
  · rintro ⟨file, hfile, rfl, hvalid⟩
    exact ⟨file, hfile, (), hvalid, rfl⟩

variable {σ : Type} {host : Host σ} {gate : Gate} {transport : Transport σ}

/-- A gate is built if and only if there is a configuration for it and a client, and it is built of
these. -/
theorem gate_eq_ok_iff (h : invocation.IsSaidBy environment line) :
    invocation.gate host disk = .ok (gate, transport)
      ↔ BuildsFrom environment line host disk gate transport := by
  simp only [Invocation.gate, Steps.bind_eq_ok_iff, Steps.mapError_eq_ok_iff,
    h.effectiveConfig_eq_ok_iff]
  constructor
  · rintro ⟨config, hconfig, client, hclient, hgate⟩
    obtain ⟨rfl, rfl⟩ := Prod.mk.inj (Except.ok.inj hgate)
    exact ⟨hconfig, rfl, rfl, hclient⟩
  · rintro ⟨hconfig, hprobe, hfiles, hclient⟩
    refine ⟨gate.config, hconfig, transport, hclient, ?_⟩
    rw [← hprobe, ← hfiles]
    rfl

end Invocation.IsSaidBy

/-! ## What is posted -/

namespace Invocation

variable {σ : Type} {host : Host σ}

/-- Only a gate posts. -/
theorem exists_gate_of_mem_posts {client : σ} {post : Post}
    (h : post ∈ (invocation.run host disk client).posts) :
    ∃ gate transport resource, invocation.gate host disk = .ok (gate, transport)
      ∧ post ∈ (gate.signedUrl resource transport client).posts := by
  rw [run] at h
  split at h
  next => cases h
  next resource haction =>
    simp only [runSign] at h
    split at h
    next => cases h
    next gate transport hgate => exact ⟨gate, transport, resource, hgate, h⟩
  next => cases h
  next => cases h

end Invocation

/-- With a configuration that passes the check, gates post to the endpoint without the blanks at its
ends, which is the address of a service, in every run of calls. A command that is understood builds
its gate exactly of what the layers make when that passes the check, and whatever it posts goes to
the endpoint of such a configuration. -/
theorem posts_where_checked :
    (∀ (σ τ : Type) (store : StateStore σ) (transport : Transport τ) (first : Session σ τ)
      (calls : List GateCall) (config : Config), config.validate = .ok () →
      (∀ gate resource, .signedUrl gate resource ∈ calls → gate.config = config) →
      ∀ (past future : List (GateEvent σ τ)) (event : GateEvent σ τ),
        trace (Session.step store transport) first calls = past ++ event :: future →
        ∃ made, event.after.posts = first.posts ++ made ∧ ∀ post ∈ made, config.SendsTo post.url)
    ∧ ∀ environment line invocation, Invocation.parse environment line = some invocation →
      ∀ (σ : Type) (host : Host σ) (disk : Disk),
        (∀ gate transport, invocation.gate host disk = .ok (gate, transport) ↔
          BuildsFrom environment line host disk gate transport)
        ∧ ∀ client, ∀ post ∈ (invocation.run host disk client).posts, ∃ gate transport,
          BuildsFrom environment line host disk gate transport ∧ gate.config.SendsTo post.url := by
  refine ⟨fun σ τ store transport first calls config hvalid hcalls past future event h =>
      GateEvent.posts_sendTo hvalid hcalls h,
    fun environment line invocation hparse σ host disk => ?_⟩
  have hsaid := Invocation.isSaidBy_of_parse hparse
  refine ⟨fun gate transport => hsaid.gate_eq_ok_iff, fun client post hpost => ?_⟩
  obtain ⟨gate, transport, resource, hgate, hpost⟩ := Invocation.exists_gate_of_mem_posts hpost
  have hbuilds := hsaid.gate_eq_ok_iff.mp hgate
  obtain ⟨file, -, -, hvalid⟩ := hbuilds.config
  exact ⟨gate, transport, hbuilds, Gate.sendsTo_of_mem_posts hvalid hpost⟩

/-- An endpoint with blanks around it, one of them a wide one. -/
def paddedConfig : Config :=
  .enabled " http://sign\u3000" ⟨"seed.json"⟩

theorem paddedConfig_endpoint? : paddedConfig.endpoint? = some "http://sign" := by
  decide +kernel

theorem paddedConfig_validate : paddedConfig.validate = .ok () := by
  refine Config.validate_eq_ok_iff.mpr
    ⟨fun endpoint hendpoint => ?_, by decide, by decide, by decide⟩
  obtain rfl := Option.some.inj (paddedConfig_endpoint?.symm.trans hendpoint)
  decide

/-- A gate with the padded endpoint makes a request. -/
theorem paddedConfig_prepare : ∃ submission,
    (Gate.inMemory paddedConfig Gate.sampleFiles Gate.sampleProbe).prepare "a.yaml"
      = .ok submission := by
  have hload : (Seed.load Gate.sampleFiles.source ⟨"seed.json"⟩).toBool = true := by decide +kernel
  have hseedPath : paddedConfig.seed? = some ⟨"seed.json"⟩ := by decide +kernel
  have himage : Gate.sampleFiles.get? (Device.mediaPath paddedConfig.mediaRelativePath "D")
      = some [] := by
    decide +kernel
  rcases hseed : Seed.load Gate.sampleFiles.source ⟨"seed.json"⟩ with e | seed
  · rw [hseed] at hload
    cases hload
  · have hevidence : Evidence.IsOf
        ⟨"http://sign", ⟨"seed.json"⟩, "D", [], seed, ["00:11:22:33:44:55"]⟩
        paddedConfig Gate.sampleFiles Gate.sampleProbe :=
      ⟨rfl, paddedConfig_endpoint?, hseedPath, rfl, himage, hseed, rfl⟩
    exact ⟨_, Evidence.prepare_eq_ok_iff.mpr ⟨_, hevidence, rfl⟩⟩

/-- A call that makes a request posts it, as the only call of a run. -/
theorem exists_event_of_prepare {gate : Gate} {resource : String} {submission : Submission}
    (h : gate.prepare resource = .ok submission) :
    ∃ event : GateEvent (SortedMap String) (List Answer),
      trace (Session.step MemoryState.store .queue) ⟨.empty, [], []⟩ [.signedUrl gate resource]
        = [] ++ event :: []
      ∧ event.after.posts = [submission.post] := by
  refine ⟨_, rfl, ?_⟩
  rw [GateEvent.step_signedUrl, Gate.signedUrl_of_prepare _ _ h]
  rfl

/-- A line that gives what the configuration with the padded endpoint has. -/
def paddedLine : List String :=
  ["--sign-endpoint", " http://sign\u3000", "sign", "a.yaml", "--use-signed-url",
    "--seed-path=seed.json"]

/-- Another endpoint in the environment, which is no address. -/
def otherEndpoint : List (String × String) :=
  [("TRUSTCTL_SIGN_ENDPOINT", "ftp://sign")]

/-- A gate with the padded endpoint posts, and to the address between the blanks. On a line the flag
counts, and not the variable, whose address would not pass the check. -/
theorem posts_where_checked_padded :
    (∃ submission,
        (Gate.inMemory paddedConfig Gate.sampleFiles Gate.sampleProbe).prepare "a.yaml"
          = .ok submission
        ∧ submission.post.url = "http://sign")
    ∧ ∃ invocation gate, Invocation.parse otherEndpoint paddedLine = some invocation
      ∧ invocation.gate ⟨Gate.sampleProbe, .ok .queue⟩ .empty = .ok (gate, .queue)
      ∧ gate.config = paddedConfig := by
  refine ⟨?_, ?_⟩
  · obtain ⟨submission, hprepare⟩ := paddedConfig_prepare
    obtain ⟨event, hrun, hposts⟩ := exists_event_of_prepare hprepare
    obtain ⟨made, hmade, hsent⟩ :=
      posts_where_checked.1 _ _ _ _ _ _ paddedConfig paddedConfig_validate
        (fun gate resource hcall => by
          obtain ⟨rfl, -⟩ := GateCall.signedUrl.inj (List.mem_singleton.mp hcall); rfl)
        [] [] event hrun
    obtain rfl : made = [submission.post] := hmade.symm.trans hposts
    obtain ⟨text, htext, hurl⟩ := (hsent submission.post List.mem_cons_self).endpoint
    obtain rfl : " http://sign\u3000" = text := Option.some.inj htext
    exact ⟨submission, hprepare, hurl.trans (by decide +kernel)⟩
  · have haccepted : (Invocation.parse otherEndpoint paddedLine).isSome = true := by decide +kernel
    obtain ⟨invocation, hparse⟩ := Option.isSome_iff_exists.mp haccepted
    obtain ⟨hgate, -⟩ :=
      posts_where_checked.2 _ _ invocation hparse _ ⟨Gate.sampleProbe, .ok .queue⟩ .empty
    have hfile : NamesFile otherEndpoint paddedLine .empty .default := by
      have hnone : given? otherEndpoint paddedLine .config = none := by decide +kernel
      rw [NamesFile, hnone]
    have hlayered : IsLayered otherEndpoint paddedLine .default paddedConfig :=
      ⟨by decide +kernel, by decide +kernel, by decide +kernel, rfl, rfl, rfl⟩
    exact ⟨invocation, ⟨paddedConfig, Gate.sampleProbe, Disk.empty.source⟩, hparse,
      (hgate _ _).mpr ⟨⟨.default, hfile, hlayered, paddedConfig_validate⟩, rfl, rfl, rfl⟩, rfl⟩

end BootTrust.Command
