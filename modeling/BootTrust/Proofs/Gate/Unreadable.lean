import BootTrust.Proofs.Gate.Stickiness
/-
A state file that is no state. What a gate decides without signed URLs ends in a write: if it
finds no decision it keeps the answer no. So a file that cannot be read must not look like one
that holds no decision, since the gate would then write over it, and a decision for signed URLs
that it may have held would be gone.

That this cannot happen rests on one thing: setting a value reads the file first, in the same way as
looking one up does, and goes no further if this fails (`leavesAlone`). Why it failed does not
matter, and nothing has been made by then, neither a directory nor a temporary file. The reasons are
listed all the same, in `Unreadable`, because the claim that a directory or a path below a file is
one of them is about what the system reports there: anything but a missing file.
-/

set_option autoImplicit false

namespace BootTrust

namespace Disk

/-! ## What is not reported as missing -/

/-- Whether a path goes on below a file: one of its names leads to a file, and another component
follows, or at least a separator. -/
def LiesBelowFile (disk : Disk) (p : Path) : Prop :=
  ∃ above name rest place content, p.components = above ++ Component.name name :: rest
    ∧ (rest ≠ [] ∨ p.endsOpen = true) ∧ disk.walk above = .ok place
    ∧ disk.find? (place ++ [name]) = some (.file content)

/-- Where a walk begins does not depend on what follows its first component, and a name at its front
makes no difference. -/
theorem start_append_name (disk : Disk) (above : List Component) (name : String)
    (rest : List Component) : disk.start (above ++ .name name :: rest) = disk.start above := by
  rcases above with _ | ⟨first, above⟩
  · rfl
  · rcases first with _ | _ | _ | s <;> rfl

/-- A walk does not get past a file, and it does not take it for a missing one. -/
theorem walk_past_file {disk : Disk} {above : List Component} {name : String} {place : Location}
    {content : Bytes} (rest : List Component) (hwalk : disk.walk above = .ok place)
    (hfile : disk.find? (place ++ [name]) = some (.file content)) :
    ∃ cause, disk.walk (above ++ .name name :: rest) = .error cause ∧ cause.kind ≠ .notFound := by
  obtain ⟨first, hstart, habove⟩ := Steps.bind_eq_ok_iff.mp hwalk
  have hwalk' : disk.walk (above ++ .name name :: rest)
      = disk.enter place (.name name) >>= fun next => rest.foldlM disk.enter next := by
    rw [walk, start_append_name, hstart]
    show (above ++ .name name :: rest).foldlM disk.enter first = _
    rw [List.foldlM_append, habove]
    rfl
  rw [hwalk', enter, hfile]
  rcases hcheck : checkName name with cause | ⟨⟩
  · exact ⟨cause, rfl, checkName_kind hcheck⟩
  · exact ⟨IoFailure.notADirectory, rfl, by decide⟩

/-- A directory is not read, and it is not taken for a missing file. -/
theorem read_directory {disk : Disk} {p : Path} (h : disk.isDirectoryAt p = true) :
    disk.read p = .error IoFailure.isADirectory := by
  unfold isDirectoryAt at h
  unfold read
  rcases hres : disk.resolve p with cause | place | place
  · rw [hres] at h
    simp at h
  · rw [hres] at h
    simp only at h
    rcases hfind : disk.find? place with _ | content | entries
    · simp [hfind] at h
    · simp [hfind, Node.isDirectory] at h
    · simp only [bind, Except.bind, hfind]
  · rfl

/-- Below a file nothing is read, and nothing is reported as missing. -/
theorem read_below_file {disk : Disk} {p : Path} (h : disk.LiesBelowFile p) :
    ∃ cause, disk.read p = .error cause ∧ cause.kind ≠ .notFound := by
  obtain ⟨above, name, rest, place, content, hcomponents, hmore, hwalk, hfile⟩ := h
  unfold read resolve
  rcases hcheck : p.check with cause | ⟨⟩
  · exact ⟨cause, rfl, check_kind hcheck⟩
  rw [hcomponents]
  rcases List.eq_nil_or_concat rest with rfl | ⟨init, last, rfl⟩
  -- the name comes last, and the open end asks for a directory there
  · have hopen : p.endsOpen = true := hmore.resolve_left fun hne => hne rfl
    unfold target
    rw [List.getLast?_concat, List.dropLast_concat, hwalk]
    rcases hname : checkName name with cause | ⟨⟩
    · refine ⟨cause, ?_, checkName_kind hname⟩
      simp only [bind, Except.bind, hname]
    · refine ⟨IoFailure.notADirectory, ?_, by decide⟩
      simp only [bind, Except.bind, pure, Except.pure, hname, hfile, hopen]
      rfl
  -- another component comes last, and the walk to it, or to the one before it, meets the file
  · rw [List.concat_eq_append, ← List.cons_append, ← List.append_assoc]
    unfold target
    rw [List.getLast?_concat, List.dropLast_concat]
    rcases last with _ | _ | _ | s
    case name =>
      obtain ⟨cause, hfails, hkind⟩ := walk_past_file init hwalk hfile
      exact ⟨cause, by rw [hfails]; rfl, hkind⟩
    all_goals
      rw [List.append_assoc, List.cons_append]
      obtain ⟨cause, hfails, hkind⟩ := walk_past_file (init ++ [_]) hwalk hfile
      exact ⟨cause, by rw [hfails]; rfl, hkind⟩

end Disk

namespace FileState

open Json

variable {p : Path} {disk : Disk}

/-! ## Why a file is no state -/

/-- Why the file at a path is no state, and what is reported of it. -/
inductive Unreadable (p : Path) (disk : Disk) : StateError → Prop where
  /-- The system does not hand out its content, and not because there is no file. -/
  | refused {cause : IoFailure} (hread : disk.read p = .error cause)
    (hkind : cause.kind ≠ .notFound) : Unreadable p disk (.io cause)
  /-- Its content is no text. -/
  | notText {bytes : Bytes} (hread : disk.read p = .ok bytes)
    (hdecode : Utf8.decode? bytes = none) : Unreadable p disk (.io IoFailure.notText)
  /-- Its text is neither blank nor an object of texts. -/
  | notTexts {bytes : Bytes} {text : String} {cause : ReadError} (hread : disk.read p = .ok bytes)
    (hdecode : Utf8.decode? bytes = some text) (hblank : Text.isAllBlank text = false)
    (hparse : readAll textMap (Utf8.encode text) = .error cause) :
    Unreadable p disk (.corrupt cause)

/-- These are all the reasons. -/
theorem read_eq_error_iff {cause : StateError} :
    read p disk = .error cause ↔ Unreadable p disk cause := by
  constructor
  · intro h
    rcases hread : disk.read p with reported | bytes
    · by_cases hkind : reported.kind = .notFound
      · rw [read_of_notFound hread hkind] at h
        simp at h
      · rw [read_of_error hread hkind] at h
        cases h
        exact .refused hread hkind
    · rw [read, hread] at h
      rcases hdecode : Utf8.decode? bytes with _ | text
      · simp only [hdecode] at h
        cases h
        exact .notText hread hdecode
      · simp only [hdecode, parse] at h
        rcases hblank : Text.isAllBlank text with _ | _
        · rw [hblank, if_neg Bool.false_ne_true] at h
          rcases hparse : readAll textMap (Utf8.encode text) with fault | raw
          · rw [hparse] at h
            cases h
            exact .notTexts hread hdecode hblank hparse
          · rw [hparse] at h
            simp at h
        · rw [hblank, if_pos rfl] at h
          simp at h
  · rintro (⟨hread, hkind⟩ | ⟨hread, hdecode⟩ | ⟨hread, hdecode, hblank, hparse⟩)
    · exact read_of_error hread hkind
    · rw [read, hread]
      simp only [hdecode]
    · rw [read, hread]
      simp only [hdecode, parse, hblank, hparse]
      rfl

theorem unreadable_directory (h : disk.isDirectoryAt p = true) :
    Unreadable p disk (.io IoFailure.isADirectory) :=
  .refused (Disk.read_directory h) (by decide)

theorem unreadable_below_file (h : disk.LiesBelowFile p) : ∃ cause, Unreadable p disk cause := by
  obtain ⟨cause, hread, hkind⟩ := Disk.read_below_file h
  exact ⟨_, .refused hread hkind⟩

/-! ## What is done to such a file -/

/-- That every request fails with the same cause, and that none of them touches the disk. The
requests of a gate are among them, whatever its configuration. -/
structure LeavesAlone (p : Path) (disk : Disk) (cause : StateError) : Prop where
  get : ∀ key, (store p).get disk key = .error (.read key cause.message)
  set : ∀ key value, (store p).set disk key value = (disk, .error (.write key cause.message))
  required : ∀ gate : Gate,
    gate.required.run (store p) disk = (disk, .error (.write Decision.key cause.message))
  /-- Not even in between does anything happen to the disk. -/
  noEffect : (∀ key value, (FileState.set p key value disk).1 = [])
    ∧ ∀ gate : Gate, (perform p gate.required disk).1 = []

/-- A decision cannot be kept in a file that is no state. -/
theorem perform_keep_of_error {cause : StateError} (h : read p disk = .error cause)
    (decision : Bool) :
    perform p (Decision.keep decision) disk
      = ([], .error (.write Decision.key cause.message)) := by
  have hset : FileState.set p Decision.key (Decision.text decision) disk
      = ([], .error (.write Decision.key cause.message)) := by
    simp only [FileState.set, h]
  simp only [Decision.keep, perform, hset]
  rfl

/-- Asking whether signed URLs are required comes down to keeping an answer: the configuration's, or
no, as if no decision had been found. -/
theorem perform_required_of_error {cause : StateError} (h : read p disk = .error cause)
    (use : Bool) :
    perform p (Decision.required use) disk = ([], .error (.write Decision.key cause.message)) := by
  by_cases huse : use = true
  · rw [Decision.required, if_pos huse]
    exact perform_keep_of_error h true
  · rw [Decision.required, if_neg huse, perform, FileState.get, h]
    exact perform_keep_of_error h false

theorem leavesAlone {cause : StateError} (h : Unreadable p disk cause) :
    LeavesAlone p disk cause := by
  have hread := read_eq_error_iff.mpr h
  have hrequired : ∀ gate : Gate, perform p gate.required disk
      = ([], .error (.write Decision.key cause.message)) := fun gate =>
    perform_required_of_error hread gate.config.useSignedUrl
  refine ⟨fun key => ?_, fun key value => store_set_unread hread key value, fun gate => ?_,
    fun key value => ?_, fun gate => ?_⟩
  · simp only [store, FileState.get, hread]
  · rw [run_store, hrequired]
    rfl
  · simp only [FileState.set, hread]
  · rw [hrequired]

/-- A look-up fails for one key as it does for every other. -/
theorem unreadable_of_get {key : String} {e : StateError} (h : (store p).get disk key = .error e) :
    ∃ cause, Unreadable p disk cause := by
  rcases hread : read p disk with cause | values
  · exact ⟨cause, read_eq_error_iff.mp hread⟩
  · simp [store, FileState.get, hread] at h

/-- Whether the disk is a given one, whatever has happened in the run. -/
def HasDisk {τ : Type} (disk : Disk) (_past : List (GateEvent Disk τ))
    (session : Session Disk τ) : Prop :=
  session.store = disk

/-- However many calls are made, by whatever gates and others, a file that is no state is left as it
is, and the disk with it. -/
theorem run_of_unreadable {τ : Type} {transport : Transport τ} {first : Session Disk τ}
    {calls : List GateCall} {past future : List (GateEvent Disk τ)} {event : GateEvent Disk τ}
    {cause : StateError} (h : Unreadable p first.store cause)
    (hrun : trace (Session.step (store p) transport) first calls = past ++ event :: future) :
    event.before.store = first.store ∧ event.after.store = first.store := by
  have hstep : ∀ (session : Session Disk τ) (call : GateCall), session.store = first.store →
      (Session.step (store p) transport session call).1.store = first.store := by
    intro session call hsame
    have halone := leavesAlone h
    rcases call with gate | ⟨gate, resource⟩ | ⟨key, value⟩
    · simp only [Session.step, hsame, halone.required gate]
    · exact hsame
    · simp only [Session.step, hsame, halone.set key value]
  have hstart : HasDisk first.store ([] : List (GateEvent Disk τ)) first := rfl
  have hbefore : HasDisk first.store past event.before := by
    refine Event.invariant_before hstart (fun past event _ heq hsame => ?_) hrun
    have hafter := hstep event.before event.call hsame
    rwa [heq] at hafter
  refine ⟨hbefore, ?_⟩
  obtain ⟨-, heq⟩ := Event.of_mem_trace (hrun ▸ List.mem_append_right past List.mem_cons_self)
  have hafter := hstep event.before event.call hbefore
  rwa [heq] at hafter

/-- A gate that does not use signed URLs answers no only where a look-up of the decision succeeds
and finds none for signed URLs. -/
theorem get_of_required_false {disk' : Disk}
    (h : (Decision.required false).run (store p) disk = (disk', .ok false)) :
    ∃ stored, (store p).get disk Decision.key = .ok stored
      ∧ ∀ text, stored = some text → ¬ Decision.Says text true := by
  rcases hget : (store p).get disk Decision.key with e | stored
  -- the look-up fails: then the answer could not be kept, and there was none
  · obtain ⟨cause, hcause⟩ := unreadable_of_get hget
    rw [run_store, perform_required_of_error (read_eq_error_iff.mpr hcause)] at h
    simp at h
  · refine ⟨stored, rfl, fun text htext htrue => ?_⟩
    have hstored : Decision.stored? (store p) disk = some true :=
      Decision.stored?_eq_some_iff.mpr ⟨text, htext ▸ hget, htrue⟩
    -- a decision that is held is the answer, and only where none is held the answer is kept
    rcases Decision.required_run h with ⟨decision, -, hheld, -, hanswer⟩ | ⟨hnone | hnone, -⟩
    · rw [hstored] at hheld
      rw [← Option.some.inj hheld] at hanswer
      simp at hanswer
    · simp at hnone
    · rw [hstored] at hnone
      simp at hnone

/-- A file that is no state is never written over, not even in a run of calls, and never takes part
in a decision. -/
theorem unreadable_left_alone (p : Path) (disk : Disk) :
    (∀ key e, (store p).get disk key = .error e →
      ∃ cause, Unreadable p disk cause ∧ LeavesAlone p disk cause)
    ∧ (∀ cause, Unreadable p disk cause → LeavesAlone p disk cause)
    ∧ (disk.isDirectoryAt p = true ∨ disk.LiesBelowFile p → ∃ cause, Unreadable p disk cause)
    ∧ (∀ gate : Gate, gate.config.useSignedUrl = false →
      ∀ disk', gate.required.run (store p) disk = (disk', .ok false) →
        ∃ stored, (store p).get disk Decision.key = .ok stored
          ∧ ∀ text, stored = some text → ¬ Decision.Says text true)
    ∧ ∀ cause, Unreadable p disk cause →
      ∀ (τ : Type) (transport : Transport τ) (first : Session Disk τ), first.store = disk →
        ∀ (calls : List GateCall) (past future : List (GateEvent Disk τ))
          (event : GateEvent Disk τ),
          trace (Session.step (store p) transport) first calls = past ++ event :: future →
          event.before.store = disk ∧ event.after.store = disk := by
  refine ⟨fun key e h => ?_, fun cause => leavesAlone, ?_, fun gate huse disk' h => ?_,
    fun cause hcause τ transport first hfirst calls past future event hrun => ?_⟩
  · obtain ⟨cause, hcause⟩ := unreadable_of_get h
    exact ⟨cause, hcause, leavesAlone hcause⟩
  · rintro (hdirectory | hbelow)
    · exact ⟨_, unreadable_directory hdirectory⟩
    · exact unreadable_below_file hbelow
  · rw [Gate.required, huse] at h
    exact get_of_required_false h
  · subst hfirst
    exact run_of_unreadable hcause hrun

/-- A disk with a directory and a file that holds no state. -/
def corruptDisk : Disk :=
  ⟨[("d", .directory []), ("state.json", .file (Utf8.encode "not json"))], []⟩

/-- The file and the directory are left alone, the file also when a gate asks after somebody has
tried to set a value, and a path below the file is no state either. Where there is no file yet, a
gate answers no. -/
theorem unreadable_left_alone_corrupt :
    (∃ e, (store ⟨"state.json"⟩).get corruptDisk "k" = .error e
      ∧ ∃ cause, Unreadable ⟨"state.json"⟩ corruptDisk cause
        ∧ LeavesAlone ⟨"state.json"⟩ corruptDisk cause
        ∧ ∃ past event, trace (Session.step (store ⟨"state.json"⟩) .queue) ⟨corruptDisk, [], []⟩
            [.set "k" "v", .required (Decision.bareGate .default)] = past ++ [event]
          ∧ event.after.store = corruptDisk)
    ∧ (corruptDisk.isDirectoryAt ⟨"d"⟩ = true
      ∧ ∃ cause, Unreadable ⟨"d"⟩ corruptDisk cause ∧ LeavesAlone ⟨"d"⟩ corruptDisk cause)
    ∧ (corruptDisk.LiesBelowFile ⟨"state.json/x"⟩
      ∧ ∃ cause, Unreadable ⟨"state.json/x"⟩ corruptDisk cause)
    ∧ (Decision.bareGate .default).config.useSignedUrl = false
    ∧ ∃ disk', (Decision.bareGate .default).required.run (store ⟨"state.json"⟩) .empty
        = (disk', .ok false)
      ∧ ∃ stored, (store ⟨"state.json"⟩).get .empty Decision.key = .ok stored
        ∧ ∀ text, stored = some text → ¬ Decision.Says text true := by
  have huse : (Decision.bareGate .default).config.useSignedUrl = false := rfl
  have hdirectory : corruptDisk.isDirectoryAt ⟨"d"⟩ = true := by decide +kernel
  have hbelow : corruptDisk.LiesBelowFile ⟨"state.json/x"⟩ := by
    have hcomponents : (⟨"state.json/x"⟩ : Path).components = [.name "state.json", .name "x"] := by
      decide +kernel
    exact ⟨[], "state.json", [.name "x"], [], _, hcomponents,
      Or.inl (List.cons_ne_nil _ _), rfl, rfl⟩
  refine ⟨?_, ⟨hdirectory, ?_⟩, ⟨hbelow, ?_⟩, huse, ?_⟩
  · have hfails : ((store ⟨"state.json"⟩).get corruptDisk "k").isOk = false := by decide +kernel
    rcases hget : (store ⟨"state.json"⟩).get corruptDisk "k" with e | stored
    · obtain ⟨cause, hcause, halone⟩ := (unreadable_left_alone _ _).1 "k" e hget
      have hrun :=
        (unreadable_left_alone _ _).2.2.2.2 cause hcause _ .queue ⟨corruptDisk, [], []⟩ rfl
          [.set "k" "v", .required (Decision.bareGate .default)] [_] [] _ rfl
      exact ⟨e, rfl, cause, hcause, halone, [_], _, rfl, hrun.2⟩
    · rw [hget] at hfails
      cases hfails
  · obtain ⟨cause, hcause⟩ := (unreadable_left_alone _ _).2.2.1 (Or.inl hdirectory)
    exact ⟨cause, hcause, (unreadable_left_alone _ _).2.1 cause hcause⟩
  · exact (unreadable_left_alone _ _).2.2.1 (Or.inr hbelow)
  · have hno : ((Decision.bareGate .default).required.run (store ⟨"state.json"⟩) .empty).2.toOption
        = some false := by decide +kernel
    have hrun := Prod.ext (Eq.refl _) (Steps.toOption_eq_some_iff.mp hno)
    exact ⟨_, hrun, (unreadable_left_alone _ _).2.2.2.1 _ huse _ hrun⟩

end FileState

end BootTrust
