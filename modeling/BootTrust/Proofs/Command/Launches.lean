import BootTrust.Command.Run
import BootTrust.Proofs.Command.Layers
import BootTrust.Proofs.Gate.Stickiness
import BootTrust.Proofs.State.Frame
/-
What launches leave on the disk. Only a check changes anything, and only once it has a configuration
in force: whatever can go wrong before that goes wrong before the state is looked at, so not even a
state that cannot be read matters to it. A check keeps one value at most, and if that fails the
state is what it was (`FileState.required_error_spares`).

In a run of launches on one disk, the disk is therefore what it was at first until there is a check
with a configuration in force.
-/

set_option autoImplicit false

namespace BootTrust

/-! ## Asking for the decision -/

namespace FileState

variable {p : Path} {disk : Disk}

/-- A file that can be read is read as before when a value could not be set in it. -/
theorem read_ok_of_set_error (h : p.isPlain = true) {key value : String} {e : StateError}
    {content : Bytes} (herror : (FileState.set p key value disk).2 = .error e)
    (hread : disk.read p = .ok content) :
    (Effect.applyAll (FileState.set p key value disk).1 disk).read p = .ok content := by
  rcases hstate : FileState.read p disk with cause | values
  · have hnone : (FileState.set p key value disk).1 = [] := by
      simp only [FileState.set, hstate]
    rw [hnone]
    exact hread
  · rw [set_eq hstate] at herror ⊢
    rcases hrun : Disk.replaceFile p (document (MemoryState.set values key value)).pretty disk
      with ⟨effects, cause | ⟨⟩⟩
    · have hran : (Disk.replaceFile p (document (MemoryState.set values key value)).pretty).run disk
          = (Effect.applyAll effects disk, .error cause) := by
        rw [Task.run, hrun]
      exact Disk.read_ok_after_error h hran hread
    · rw [hrun] at herror
      cases herror

/-- What is left of a disk when a decision could not be kept in the file at a path: a replacement
has failed at most, and a file that could be read is the same. -/
structure SparesState (p : Path) (disk disk' : Disk) : Prop where
  spared : Disk.Spared p disk disk'
  read : ∀ content, disk.read p = .ok content → disk'.read p = .ok content

theorem SparesState.refl (p : Path) (disk : Disk) : SparesState p disk disk :=
  ⟨Disk.Spared.refl p disk, fun _ h => h⟩

/-- A decision that is asked for and could not be kept has not touched the state. -/
theorem required_error_spares (h : p.isPlain = true) {use : Bool} {disk' : Disk} {e : StateError}
    (hrun : (Decision.required use).run (store p) disk = (disk', .error e)) :
    SparesState p disk disk' := by
  rcases Decision.required_run hrun with ⟨decision, -, -, -, hresult⟩ | ⟨-, hkept⟩
  · cases hresult
  · rcases hset : FileState.set p Decision.key (Decision.text use) disk with ⟨effects, e' | ⟨⟩⟩
    · simp only [Decision.keep, StateProgram.run, store, hset] at hkept
      obtain ⟨rfl, -⟩ := Prod.mk.inj hkept
      refine ⟨?_, fun content hread => ?_⟩
      · have hconfined := confined_set h disk Decision.key (Decision.text use)
        rw [hset] at hconfined
        exact hconfined.error e' rfl
      · have hsame := read_ok_of_set_error h (congrArg Prod.snd hset) hread
        rwa [hset] at hsame
    · simp only [Decision.keep, StateProgram.run, store, hset] at hkept
      cases hkept

end FileState

namespace Command

/-! ## One command -/

variable {σ : Type}

namespace Invocation

variable {invocation : Invocation} {host : Host σ} {disk : Disk} {client : σ}

theorem effects_eq_nil (h : invocation.action ≠ .check) :
    (invocation.run host disk client).effects = [] := by
  rw [run]
  split
  next hcheck => exact absurd hcheck h
  next => rfl
  next => rfl
  next => rfl

/-- Without a configuration there is no gate. -/
theorem gate_of_config_error {e : ConfigError} (h : invocation.effectiveConfig disk = .error e) :
    invocation.gate host disk = .error (.configuration e) := by
  rw [gate, h]
  rfl

/-- What a check comes to: there is no gate and nothing happens, or the gate is asked. -/
theorem run_check (haction : invocation.action = .check) :
    (∃ failure, invocation.gate host disk = .error failure
      ∧ (invocation.run host disk client).effects = []
      ∧ (invocation.run host disk client).result = .error failure)
    ∨ ∃ gate transport, invocation.gate host disk = .ok (gate, transport)
      ∧ (invocation.run host disk client).effects
        = (FileState.perform invocation.state gate.required disk).1
      ∧ (invocation.run host disk client).result
        = ((FileState.perform invocation.state gate.required disk).2.mapError .stateStore).map
            .decision := by
  rw [run, haction]
  simp only [runCheck]
  rcases hgate : invocation.gate host disk with failure | ⟨gate, transport⟩
  · exact Or.inl ⟨failure, rfl, rfl, rfl⟩
  · exact Or.inr ⟨gate, transport, rfl, rfl, rfl⟩

end Invocation

theorem Report.exitCode_ofResult (json : Bool) (result : Except Failure Outcome) :
    (ofResult json result).exitCode = match result with
      | .ok _ => 0
      | .error failure => failure.exitCode := by
  rcases result with failure | outcome
  · rcases json with _ | _
    · rfl
    · rfl
  · rfl

theorem Action.eq_check {action : Action} (h : action.operands = ["check"]) : action = .check := by
  cases action with
  | check => rfl
  | sign | hash | volume => simp [operands] at h

/-! ## One launch -/

namespace Launch

/-- That the command of a line is `check`. -/
def IsCheck (launch : Launch σ) : Prop :=
  operandsOn launch.arguments = ["check"]

/-- That there is a configuration for a launch: the file that is named can be loaded, and what the
layers make of it passes the check. -/
def HasConfig (launch : Launch σ) (disk : Disk) : Prop :=
  ∃ config file, NamesFile launch.environment launch.arguments disk file
    ∧ IsLayered launch.environment launch.arguments file config ∧ config.validate = .ok ()

/-- Where a launch keeps the state. -/
def statePath (launch : Launch σ) : Path :=
  ⟨(given? launch.environment launch.arguments .state).getD defaultState⟩

/-- What a launch may do to the disk, and what it has to report then. -/
structure KeepsTo (launch : Launch σ) (disk disk' : Disk) (reply : Option Report) : Prop where
  /-- There is a report if and only if the line is understood. -/
  report : reply.isSome = (Invocation.parse launch.environment launch.arguments).isSome
  refused : reply = none → disk' = disk
  other : ¬ launch.IsCheck → disk' = disk
  /-- Without a configuration a check does nothing and says so, whatever the state is. -/
  unconfigured : launch.IsCheck → ¬ launch.HasConfig disk →
    disk' = disk ∧ ∀ report, reply = some report → report.exitCode = 2
  /-- A launch that fails leaves the state what it was, also if it fails over the state, with exit
  code 6. -/
  failed : launch.statePath.isPlain = true → ∀ report, reply = some report → report.exitCode ≠ 0 →
    FileState.SparesState launch.statePath disk disk'

variable {launch : Launch σ} {invocation : Invocation} {disk : Disk}

theorem hasConfig_iff (h : invocation.IsSaidBy launch.environment launch.arguments) (disk : Disk) :
    launch.HasConfig disk ↔ ∃ config, invocation.effectiveConfig disk = .ok config := by
  simp only [HasConfig, h.effectiveConfig_eq_ok_iff]

theorem isCheck_iff (h : invocation.IsSaidBy launch.environment launch.arguments) :
    launch.IsCheck ↔ invocation.action = .check := by
  rw [IsCheck, h.action]
  constructor
  · exact Action.eq_check
  · intro haction
    rw [haction, Action.operands]

/-- A check without a configuration fails for that reason. -/
theorem run_unconfigured {e : ConfigError} (haction : invocation.action = .check)
    (herror : invocation.effectiveConfig disk = .error e) (host : Host σ) (client : σ) :
    (invocation.run host disk client).effects = []
      ∧ (invocation.run host disk client).result = .error (.configuration e) := by
  have hnone : invocation.gate host disk = .error (.configuration e) :=
    Invocation.gate_of_config_error herror
  rcases invocation.run_check haction with ⟨failure, hgate, heffects, hresult⟩
    | ⟨gate, transport, hgate, -⟩
  · rw [hnone] at hgate
    obtain rfl := Except.error.inj hgate
    exact ⟨heffects, hresult⟩
  · rw [hnone] at hgate
    cases hgate

/-- A command that fails leaves the state what it was. -/
theorem run_failed (hplain : invocation.state.isPlain = true) {host : Host σ} {client : σ}
    {failure : Failure} (hresult : (invocation.run host disk client).result = .error failure) :
    FileState.SparesState invocation.state disk
      (Effect.applyAll (invocation.run host disk client).effects disk) := by
  by_cases haction : invocation.action = .check
  · rcases invocation.run_check haction with ⟨failure', -, heffects, -⟩
      | ⟨gate, transport, -, heffects, hreport⟩
    · rw [heffects]
      exact FileState.SparesState.refl _ _
    · rw [heffects]
      rcases hrequired : (FileState.perform invocation.state gate.required disk).2 with e | decision
      · have hrun :
            (Decision.required gate.config.useSignedUrl).run (FileState.store invocation.state) disk
              = (Effect.applyAll (FileState.perform invocation.state gate.required disk).1 disk,
                .error e) := by
          rw [← Gate.required, FileState.run_store, hrequired]
        exact FileState.required_error_spares hplain hrun
      · rw [hreport, hrequired] at hresult
        cases hresult
  · rw [Invocation.effects_eq_nil haction]
    exact FileState.SparesState.refl _ _

/-- No launch does more to the disk than it may. -/
theorem keepsTo (launch : Launch σ) (disk : Disk) :
    launch.KeepsTo disk (launch.step disk).1 (launch.step disk).2 := by
  rcases hparse : Invocation.parse launch.environment launch.arguments with _ | invocation
  · have hstep : launch.step disk = (disk, none) := by
      rw [step, hparse]
    rw [hstep]
    refine ⟨?_, fun _ => rfl, fun _ => rfl, fun _ _ => ⟨rfl, fun _ hreport => ?_⟩,
      fun _ _ hreport => ?_⟩
    · rw [hparse]
      rfl
    · cases hreport
    · cases hreport
  · have hsaid := Invocation.isSaidBy_of_parse hparse
    have hstep : launch.step disk
        = (Effect.applyAll (invocation.run launch.host disk launch.client).effects disk,
          some (.ofResult invocation.json
            (invocation.run launch.host disk launch.client).result)) := by
      rw [step, hparse]
    rw [hstep]
    refine ⟨?_, fun hreport => ?_, fun hother => ?_, fun hcheck hnone => ?_,
      fun hplain report hreport hcode => ?_⟩
    · rw [hparse]
      rfl
    · cases hreport
    · rw [isCheck_iff hsaid] at hother
      rw [Invocation.effects_eq_nil hother]
      rfl
    · rw [hasConfig_iff hsaid] at hnone
      rcases herror : invocation.effectiveConfig disk with e | config
      · obtain ⟨heffects, hresult⟩ :=
          run_unconfigured ((isCheck_iff hsaid).mp hcheck) herror launch.host launch.client
        rw [heffects, hresult]
        refine ⟨rfl, fun report hreport => ?_⟩
        rw [← Option.some.inj hreport, Report.exitCode_ofResult]
        rfl
      · exact absurd ⟨config, herror⟩ hnone
    · have hstate : launch.statePath = invocation.state := hsaid.state.symm
      rw [hstate] at hplain ⊢
      rw [← Option.some.inj hreport, Report.exitCode_ofResult] at hcode
      rcases hresult : (invocation.run launch.host disk launch.client).result with failure | outcome
      · exact run_failed hplain hresult
      · rw [hresult] at hcode
        exact absurd rfl hcode

end Launch

/-! ## Launches one after another -/

namespace LaunchEvent

/-- That an event is a check with a configuration for it. -/
def IsConfiguredCheck (event : LaunchEvent σ) : Prop :=
  event.call.IsCheck ∧ event.call.HasConfig event.before

/-- What holds of an event in a run that began with the disk `first`, after the events of `past`. -/
structure IsFramed (first : Disk) (past : List (LaunchEvent σ)) (event : LaunchEvent σ) : Prop where
  keeps : event.call.KeepsTo event.before event.after event.reply
  /-- Without a check that has a configuration, the disk is what it was at first. -/
  untouched : (∀ e ∈ past ++ [event], ¬ IsConfiguredCheck e) → event.after = first

variable {first : Disk} {launches : List (Launch σ)} {past future : List (LaunchEvent σ)}
  {event : LaunchEvent σ}

/-- Only a check with a configuration changes the disk. -/
theorem after_eq_before (h : event.call.KeepsTo event.before event.after event.reply)
    (hnone : ¬ IsConfiguredCheck event) : event.after = event.before := by
  by_cases hcheck : event.call.IsCheck
  · exact (h.unconfigured hcheck fun hconfig => hnone ⟨hcheck, hconfig⟩).1
  · exact h.other hcheck

/-- Whether the disk is the first one as long as there has been no check with a configuration. -/
def Untouched (first : Disk) (past : List (LaunchEvent σ)) (disk : Disk) : Prop :=
  (∀ e ∈ past, ¬ IsConfiguredCheck e) → disk = first

theorem isFramed (h : trace Launch.step first launches = past ++ event :: future) :
    IsFramed first past event := by
  have hkeeps : ∀ event : LaunchEvent σ,
      Launch.step event.before event.call = (event.after, event.reply) →
      event.call.KeepsTo event.before event.after event.reply := by
    intro event hstep
    have := event.call.keepsTo event.before
    rwa [hstep] at this
  have hon : ∀ (past : List (LaunchEvent σ)) event, event.call ∈ launches →
      Launch.step event.before event.call = (event.after, event.reply) →
      Untouched first past event.before → Untouched first (past ++ [event]) event.after := by
    intro past event _ hstep hbefore hnone
    rw [after_eq_before (hkeeps event hstep)
      (hnone event (List.mem_append_right past List.mem_cons_self))]
    exact hbefore fun e he => hnone e (List.mem_append_left _ he)
  have hbefore : Untouched first past event.before := Event.invariant_before (fun _ => rfl) hon h
  obtain ⟨hmem, hstep⟩ := Event.of_mem_trace (h ▸ List.mem_append_right past List.mem_cons_self)
  exact ⟨hkeeps event hstep, hon past event hmem hstep hbefore⟩

end LaunchEvent

/-- In every run of launches on one disk, whatever they are launched with and whatever the disk
holds, only a check that has a configuration changes the disk. One that has none exits with 2, and
one that fails over the state leaves it what it was. -/
theorem only_configured_check_changes_disk (first : Disk) (launches : List (Launch σ))
    (past future : List (LaunchEvent σ)) (event : LaunchEvent σ)
    (h : trace Launch.step first launches = past ++ event :: future) : event.IsFramed first past :=
  LaunchEvent.isFramed h

/-- A disk on which the state is no state. -/
def corruptDisk : Disk := ⟨[(defaultState, .file [0x78])], []⟩

/-- A check on a host without volumes. -/
def checkLaunch (options : List String) : Launch (List Answer) :=
  ⟨[], "check" :: options, ⟨.fixed [] [] none none, .ok .queue⟩, []⟩

/-- With an endpoint that is no address there is no configuration. -/
theorem not_hasConfig_ftp (disk : Disk) :
    ¬ (checkLaunch ["--sign-endpoint=ftp://sign"]).HasConfig disk := by
  rintro ⟨config, file, -, hlayered, hvalid⟩
  have hgiven : given? [] ["check", "--sign-endpoint=ftp://sign"] .signEndpoint
      = some "ftp://sign" := by decide +kernel
  have hendpoint : config.signEndpoint = some "ftp://sign" := by
    rw [hlayered.signEndpoint]
    exact congrArg (·.or file.signEndpoint) hgiven
  have hset : config.endpoint? = some "ftp://sign" :=
    Config.endpoint?_eq_some_iff.mpr ⟨"ftp://sign", hendpoint, by decide +kernel, by decide⟩
  exact absurd ((Config.validate_eq_ok_iff.mp hvalid).1 "ftp://sign" hset) (by decide)

/-- Two checks, the first one with an endpoint that is no address. It does not even look at the
state. The second one does and fails over it, with exit code 6. -/
theorem only_configured_check_changes_disk_corrupt :
    (∃ event second,
      trace Launch.step corruptDisk [checkLaunch ["--sign-endpoint=ftp://sign"], checkLaunch []]
        = [] ++ event :: [second]
      ∧ event.after = corruptDisk ∧ event.reply.map Report.exitCode = some 2)
    ∧ ∃ first event,
      trace Launch.step corruptDisk [checkLaunch ["--sign-endpoint=ftp://sign"], checkLaunch []]
        = [first] ++ event :: []
      ∧ FileState.SparesState ⟨defaultState⟩ event.before event.after
      ∧ event.reply.map Report.exitCode = some 6 := by
  have hrun : ∃ event second : LaunchEvent (List Answer),
      trace Launch.step corruptDisk [checkLaunch ["--sign-endpoint=ftp://sign"], checkLaunch []]
        = [event, second]
      ∧ event.call = checkLaunch ["--sign-endpoint=ftp://sign"] ∧ second.call = checkLaunch []
      ∧ event.before = corruptDisk ∧ event.reply.map Report.exitCode = some 2
      ∧ second.reply.map Report.exitCode = some 6 :=
    ⟨_, _, rfl, rfl, rfl, rfl, by decide +kernel, by decide +kernel⟩
  obtain ⟨event, second, hrun, hfirst, hsecond, hbefore, htwo, hsix⟩ := hrun
  refine ⟨⟨event, second, hrun, ?_, htwo⟩, event, second, hrun, ?_, hsix⟩
  · have hkeeps := (only_configured_check_changes_disk corruptDisk _ [] [second] event hrun).keeps
    rw [hfirst, hbefore] at hkeeps
    have hcheck : (checkLaunch ["--sign-endpoint=ftp://sign"]).IsCheck := by
      rw [Launch.IsCheck]
      decide +kernel
    exact (hkeeps.unconfigured hcheck (not_hasConfig_ftp corruptDisk)).1
  · have hkeeps := (only_configured_check_changes_disk corruptDisk _ [event] [] second hrun).keeps
    rw [hsecond] at hkeeps
    obtain ⟨report, hreport, hcode⟩ := Option.map_eq_some_iff.mp hsix
    have hpath : (checkLaunch []).statePath = ⟨defaultState⟩ := by
      rw [Launch.statePath]
      decide +kernel
    have hspares :=
      hkeeps.failed (by rw [hpath]; decide +kernel) report hreport (by rw [hcode]; decide)
    rwa [hpath] at hspares

end Command

end BootTrust
