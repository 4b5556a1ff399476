import BootTrust.Gate.Session
import BootTrust.MemoryFiles
import BootTrust.Proofs.Gate.Recognition
import BootTrust.Proofs.State.File
/-
A decision sticks. Once a gate has answered that signed URLs are required, every later answer is the
same, under whatever configuration, as long as nobody else writes under the key of the decision. And
every answer is kept: right after it, the store has the decision under that key.

The proof rests on one fact about what goes on between the calls: as long as the store can be read,
it holds the decision for signed URLs if and only if it did so at first or some call that went well
ran under a configuration that uses them (`Tracks`). A call can answer with the decision that is
held, keep its own, or fail (`required_run`, `keep_run`); other keys do not touch the decision, and
a store that cannot be read any more answers nothing.
-/

set_option autoImplicit false

namespace BootTrust

variable {σ τ : Type}

/-! ## The decision in a store -/

namespace Decision

/-- A decision that was kept is recognised. -/
theorem ofText?_text (decision : Bool) : ofText? (text decision) = some decision := by
  rcases decision with _ | _
  · decide
  · decide

theorem normalizeKey_key : State.normalizeKey key = key := by
  decide

variable {store : StateStore σ} {view : σ → Option (SortedMap String)} {fragile : Prop}

theorem stored?_seen (seen : store.IsSeenAs view fragile) {state : σ} {values : SortedMap String}
    (h : view state = some values) :
    stored? store state = (MemoryState.get? values key).bind ofText? := by
  rw [stored?, seen.get_seen key h]
  rcases MemoryState.get? values key with _ | text
  · rw [Option.bind_none]
  · rw [Option.bind_some]

/-- A decision that has been set is the one that is held. -/
theorem stored?_set (seen : store.IsSeenAs view fragile) {state : σ} {values : SortedMap String}
    {decision : Bool} (h : view state = some (MemoryState.set values key (text decision))) :
    stored? store state = some decision := by
  rw [stored?_seen seen h, State.get?_set, if_pos rfl, Option.bind_some, ofText?_text]

/-- A value under another key does not touch the decision. -/
theorem get?_set_other (values : SortedMap String) {key' : String} (value : String)
    (h : State.normalizeKey key' ≠ key) :
    MemoryState.get? (MemoryState.set values key' value) key = MemoryState.get? values key := by
  rw [State.get?_set, normalizeKey_key, if_neg h.symm]

/-- What keeping a decision does: it is set, or it could not be. -/
theorem keep_run (seen : store.IsSeenAs view fragile) {state state' : σ} {decision : Bool}
    {result : Except StateError Bool} (h : (keep decision).run store state = (state', result)) :
    (result = .ok decision ∧ ∃ values, view state = some values
        ∧ view state' = some (MemoryState.set values key (text decision)))
      ∨ (∃ e, result = .error e) ∧ (view state' = view state ∨ view state' = none) := by
  simp only [keep, StateProgram.run] at h
  rcases hset : store.set state key (text decision) with ⟨left, e | ⟨⟩⟩
  -- refused: the store is seen as before, or it cannot be read
  · right
    simp only [hset, StateProgram.run] at h
    obtain ⟨rfl, rfl⟩ := Prod.mk.inj h
    refine ⟨⟨e, rfl⟩, ?_⟩
    rcases hview : view state with _ | values
    · obtain ⟨e', hrefused⟩ := seen.set_unseen key (text decision) hview
      rw [hrefused] at hset
      obtain ⟨rfl, -⟩ := Prod.mk.inj hset
      exact Or.inl hview
    · rcases seen.set_error hview hset with hsame | ⟨hlost, -⟩
      · exact Or.inl hsame
      · exact Or.inr hlost
  -- set: then the store could be read, since otherwise it refuses everything
  · left
    simp only [hset, StateProgram.run] at h
    obtain ⟨rfl, rfl⟩ := Prod.mk.inj h
    refine ⟨rfl, ?_⟩
    rcases hview : view state with _ | values
    · obtain ⟨e', hrefused⟩ := seen.set_unseen key (text decision) hview
      rw [hrefused] at hset
      simp at hset
    · exact ⟨values, rfl, seen.set_ok hview hset⟩

/-- Without signed URLs a decision that is held is the answer, and if none is held, the answer is
no. -/
theorem required_false_run (store : StateStore σ) (state : σ) :
    (required false).run store state
      = match stored? store state with
        | some decision => (state, .ok decision)
        | none => (keep false).run store state := by
  rw [required, if_neg Bool.false_ne_true, StateProgram.run, stored?]
  rcases store.get state key with e | _ | text
  · simp only
  · simp only
  · simp only
    generalize ofText? text = found
    rcases found with _ | decision
    · simp only
    · simp only [StateProgram.run]

/-- What asking for a decision does. A decision that is held is the answer, unless the configuration
uses signed URLs; otherwise the configuration is the answer, and it is kept. -/
theorem required_run {store : StateStore σ} {state state' : σ} {use : Bool}
    {result : Except StateError Bool} (h : (required use).run store state = (state', result)) :
    (∃ decision, use = false ∧ stored? store state = some decision ∧ state' = state
        ∧ result = .ok decision)
      ∨ (use = true ∨ stored? store state = none)
        ∧ (keep use).run store state = (state', result) := by
  rcases use with _ | _
  · rw [required_false_run] at h
    rcases hstored : stored? store state with _ | decision
    · rw [hstored] at h
      exact Or.inr ⟨Or.inr rfl, h⟩
    · rw [hstored] at h
      obtain ⟨rfl, rfl⟩ := Prod.mk.inj h
      exact Or.inl ⟨decision, rfl, rfl, rfl, rfl⟩
  · exact Or.inr ⟨Or.inl rfl, h⟩

/-- A store that cannot be read holds no decision. -/
theorem seen_of_stored? (seen : store.IsSeenAs view fragile) {state : σ} {decision : Bool}
    (h : stored? store state = some decision) : ∃ values, view state = some values := by
  rcases hview : view state with _ | values
  · obtain ⟨e, he⟩ := seen.get_unseen key hview
    rw [stored?, he] at h
    simp at h
  · exact ⟨values, rfl⟩

end Decision

/-! ## Runs of gates -/

/-- Whether an event settles that signed URLs are required: the configuration uses them, and the
call went well. -/
def GateEvent.IsEnabling (event : GateEvent σ τ) : Prop :=
  ∃ gate answer, event.call = .required gate ∧ gate.config.useSignedUrl = true
    ∧ event.reply = .required (.ok answer)

namespace Decision

/-- That a run sticks to its decisions, as far as one event is concerned. The run began with
`first`, and `past` is what has happened before the event. -/
structure Sticks (store : StateStore σ) (first : Session σ τ) (past : List (GateEvent σ τ))
    (event : GateEvent σ τ) : Prop where
  /-- The answer is yes if and only if it was yes at first, or some configuration has settled it. -/
  answer : ∀ gate answer, event.call = .required gate → event.reply = .required (.ok answer) →
    (answer = true ↔
      Holds store first.store true ∨ ∃ settled ∈ past ++ [event], settled.IsEnabling)
  /-- The answer is kept. -/
  kept : ∀ gate answer, event.call = .required gate → event.reply = .required (.ok answer) →
    Holds store event.after.store answer
  /-- Without signed URLs, a decision that is held is left alone, and the whole store with it. -/
  unchanged : ∀ gate decision, event.call = .required gate → gate.config.useSignedUrl = false →
    Holds store event.before.store decision → event.after.store = event.before.store

/-- As long as the store can be read, it holds the decision for signed URLs if and only if it did so
at first or some event has settled it. -/
def Tracks (store : StateStore σ) (view : σ → Option (SortedMap String)) (first : Session σ τ)
    (past : List (GateEvent σ τ)) (session : Session σ τ) : Prop :=
  ∀ values, view session.store = some values →
    (stored? store session.store = some true ↔
      stored? store first.store = some true ∨ ∃ settled ∈ past, settled.IsEnabling)

variable {store : StateStore σ} {view : σ → Option (SortedMap String)} {fragile : Prop}
  {transport : Transport τ} {first : Session σ τ} {past : List (GateEvent σ τ)}
  {event : GateEvent σ τ}

theorem exists_enabling_concat :
    (∃ settled ∈ past ++ [event], settled.IsEnabling)
      ↔ (∃ settled ∈ past, settled.IsEnabling) ∨ event.IsEnabling := by
  constructor
  · rintro ⟨settled, hmem, hsettled⟩
    rcases List.mem_append.mp hmem with hpast | hevent
    · exact Or.inl ⟨settled, hpast, hsettled⟩
    · rw [List.mem_singleton.mp hevent] at hsettled
      exact Or.inr hsettled
  · rintro (⟨settled, hmem, hsettled⟩ | hevent)
    · exact ⟨settled, List.mem_append_left _ hmem, hsettled⟩
    · exact ⟨event, List.mem_append_right _ List.mem_cons_self, hevent⟩

/-- An event that settles nothing and leaves the decision as it was, or makes the store
unreadable. -/
theorem Tracks.of_same (seen : store.IsSeenAs view fragile)
    (htracks : Tracks store view first past event.before) (hidle : ¬ event.IsEnabling)
    (hsame : ∀ values', view event.after.store = some values' → ∃ values,
      view event.before.store = some values
        ∧ MemoryState.get? values' key = MemoryState.get? values key) :
    Tracks store view first (past ++ [event]) event.after := by
  intro values' hafter
  obtain ⟨values, hbefore, hget⟩ := hsame values' hafter
  have hstored : stored? store event.after.store = stored? store event.before.store := by
    rw [stored?_seen seen hafter, stored?_seen seen hbefore, hget]
  rw [hstored, htracks values hbefore, exists_enabling_concat]
  constructor
  · rintro (hfirst | hpast)
    · exact Or.inl hfirst
    · exact Or.inr (Or.inl hpast)
  · rintro (hfirst | hpast | henabling)
    · exact Or.inl hfirst
    · exact Or.inr hpast
    · exact absurd henabling hidle

/-- An answer that is kept settles the matter, or says that nothing has settled it. -/
theorem Tracks.of_kept (seen : store.IsSeenAs view fragile)
    (htracks : Tracks store view first past event.before) {gate : Gate}
    {values : SortedMap String} (hcall : event.call = .required gate)
    (hreply : event.reply = .required (.ok gate.config.useSignedUrl))
    (hwhy : gate.config.useSignedUrl = true ∨ stored? store event.before.store = none)
    (hbefore : view event.before.store = some values)
    (hafter : view event.after.store
      = some (MemoryState.set values key (text gate.config.useSignedUrl))) :
    Tracks store view first (past ++ [event]) event.after := by
  intro values' _
  rw [stored?_set seen hafter, exists_enabling_concat, Option.some_inj]
  rcases hwhy with huse | hnone
  · have henabling : event.IsEnabling := ⟨gate, _, hcall, huse, hreply⟩
    exact ⟨fun _ => Or.inr (Or.inr henabling), fun _ => huse⟩
  -- no decision was held, so nothing has settled it before
  · have hpast := htracks values hbefore
    rw [hnone] at hpast
    constructor
    · intro huse
      exact Or.inr (Or.inr ⟨gate, _, hcall, huse, hreply⟩)
    · rintro (hfirst | hsettled | ⟨gate', answer, hcall', huse', -⟩)
      · exact absurd (hpast.mpr (Or.inl hfirst)) (by simp)
      · exact absurd (hpast.mpr (Or.inr hsettled)) (by simp)
      · obtain rfl : gate = gate' := GateCall.required.inj (hcall.symm.trans hcall')
        exact huse'

/-- Asking for a decision outlasts what is going on. -/
theorem Tracks.required (seen : store.IsSeenAs view fragile)
    (htracks : Tracks store view first past event.before) {gate : Gate}
    {result : Except StateError Bool} (hcall : event.call = .required gate)
    (hreply : event.reply = .required result)
    (hrun : gate.required.run store event.before.store = (event.after.store, result)) :
    Tracks store view first (past ++ [event]) event.after := by
  rcases required_run hrun with ⟨decision, huse, hheld, hstore, -⟩ | ⟨hwhy, hkeep⟩
  -- a decision is held, and nothing is changed
  · refine htracks.of_same seen ?_ fun values' hafter => ⟨values', ?_, rfl⟩
    · rintro ⟨gate', answer, hcall', huse', -⟩
      obtain rfl : gate = gate' := GateCall.required.inj (hcall.symm.trans hcall')
      rw [huse] at huse'
      simp at huse'
    · rw [← hstore]
      exact hafter
  · rcases keep_run seen hkeep with ⟨rfl, values, hbefore, hafter⟩ | ⟨⟨e, rfl⟩, hview⟩
    · exact htracks.of_kept seen hcall hreply hwhy hbefore hafter
    -- the answer could not be kept, so there is none
    · refine htracks.of_same seen ?_ fun values' hafter => ⟨values', ?_, rfl⟩
      · rintro ⟨gate', answer, -, -, hreply'⟩
        rw [hreply] at hreply'
        simp at hreply'
      · rcases hview with hview | hview
        · rw [← hview]
          exact hafter
        · rw [hview] at hafter
          simp at hafter

/-- Somebody else's value under another key outlasts it too. -/
theorem Tracks.set (seen : store.IsSeenAs view fragile)
    (htracks : Tracks store view first past event.before) {key' value : String}
    {result : Except StateError Unit} (hkey : State.normalizeKey key' ≠ key)
    (hcall : event.call = .set key' value)
    (hset : store.set event.before.store key' value = (event.after.store, result)) :
    Tracks store view first (past ++ [event]) event.after := by
  refine htracks.of_same seen ?_ fun values' hafter => ?_
  · rintro ⟨gate, answer, hcall', -⟩
    rw [hcall] at hcall'
    simp at hcall'
  · rcases hbefore : view event.before.store with _ | values
    · obtain ⟨e, hrefused⟩ := seen.set_unseen key' value hbefore
      rw [hrefused] at hset
      rw [← (Prod.mk.inj hset).1, hbefore] at hafter
      simp at hafter
    · rcases result with e | ⟨⟩
      · rcases seen.set_error hbefore hset with hsame | ⟨hlost, -⟩
        · rw [hsame] at hafter
          exact ⟨values, rfl, by rw [Option.some_inj.mp hafter]⟩
        · rw [hlost] at hafter
          simp at hafter
      · rw [seen.set_ok hbefore hset] at hafter
        refine ⟨values, rfl, ?_⟩
        rw [← Option.some_inj.mp hafter]
        exact get?_set_other values value hkey

/-- Each call outlasts what is going on. -/
theorem Tracks.step (seen : store.IsSeenAs view fragile)
    (hothers : ∀ key' value, event.call = .set key' value → State.normalizeKey key' ≠ key)
    (hstep : Session.step store transport event.before event.call = (event.after, event.reply))
    (htracks : Tracks store view first past event.before) :
    Tracks store view first (past ++ [event]) event.after := by
  rcases hcall : event.call with gate | ⟨gate, resource⟩ | ⟨key', value⟩
  · rw [hcall, Session.step] at hstep
    obtain ⟨hafter, hreply⟩ := Prod.mk.inj hstep
    refine htracks.required seen hcall hreply.symm ?_
    rw [← hafter]
  · rw [hcall, Session.step] at hstep
    obtain ⟨hafter, hreply⟩ := Prod.mk.inj hstep
    refine htracks.of_same seen ?_ fun values' hview => ⟨values', ?_, rfl⟩
    · rintro ⟨gate', answer, hcall', -⟩
      rw [hcall] at hcall'
      simp at hcall'
    · rw [← hafter] at hview
      exact hview
  · have hkey := hothers key' value hcall
    rw [hcall, Session.step] at hstep
    obtain ⟨hafter, hreply⟩ := Prod.mk.inj hstep
    have hset : store.set event.before.store key' value
        = (event.after.store, (store.set event.before.store key' value).2) := by
      rw [← hafter]
    exact htracks.set seen hkey hcall hset

/-- Every event of a run sticks to the decisions before it. -/
theorem sticks (seen : store.IsSeenAs view fragile) {calls : List GateCall}
    (hothers : ∀ key' value, GateCall.set key' value ∈ calls → State.normalizeKey key' ≠ key)
    {future : List (GateEvent σ τ)}
    (h : trace (Session.step store transport) first calls = past ++ event :: future) :
    Sticks store first past event := by
  have hstart : Tracks store view first [] first := fun _ _ =>
    ⟨Or.inl, fun hheld => hheld.resolve_right fun ⟨_, hmem, _⟩ => List.not_mem_nil hmem⟩
  have hbefore : Tracks store view first past event.before :=
    Event.invariant_before hstart (fun past event hcall hstep htracks =>
      htracks.step seen (fun key' value hset => hothers key' value (hset ▸ hcall)) hstep) h
  obtain ⟨hmem, hstep⟩ := Event.of_mem_trace (h ▸ List.mem_append_right past List.mem_cons_self)
  have hafter := hbefore.step seen (fun key' value hset => hothers key' value (hset ▸ hmem)) hstep
  -- what a call for a decision does, in terms of the program behind it
  have hrun : ∀ gate, event.call = .required gate → ∃ result, event.reply = .required result
      ∧ gate.required.run store event.before.store = (event.after.store, result) := by
    intro gate hcall
    rw [hcall, Session.step] at hstep
    obtain ⟨hstate, hreply⟩ := Prod.mk.inj hstep
    exact ⟨_, hreply.symm, by rw [← hstate]⟩
  have hkept : ∀ gate answer, event.call = .required gate → event.reply = .required (.ok answer) →
      stored? store event.after.store = some answer := by
    intro gate answer hcall hreply
    obtain ⟨result, hreply', hrequired⟩ := hrun gate hcall
    obtain rfl : .ok answer = result := GateReply.required.inj (hreply.symm.trans hreply')
    rcases required_run hrequired with ⟨decision, -, hheld, hsame, hanswer⟩ | ⟨-, hkeep⟩
    · rw [hsame, hheld, Except.ok.inj hanswer]
    · rcases keep_run seen hkeep with ⟨hanswer, values, -, hview⟩ | ⟨⟨e, he⟩, -⟩
      · rw [stored?_set seen hview, Except.ok.inj hanswer]
      · simp at he
  refine ⟨fun gate answer hcall hreply => ?_, fun gate answer hcall hreply => ?_,
    fun gate decision hcall huse hheld => ?_⟩
  -- the answer is the decision that is held now, of which the invariant speaks
  · have hstored := hkept gate answer hcall hreply
    obtain ⟨values, hview⟩ := seen_of_stored? seen hstored
    rw [← stored?_eq_some_iff, ← hafter values hview, hstored, Option.some_inj]
  · exact stored?_eq_some_iff.mp (hkept gate answer hcall hreply)
  · obtain ⟨result, -, hrequired⟩ := hrun gate hcall
    rcases required_run hrequired with ⟨_, -, -, hsame, -⟩ | ⟨hwhy | hwhy, -⟩
    · exact hsame
    · rw [huse] at hwhy
      simp at hwhy
    · rw [stored?_eq_some_iff.mpr hheld] at hwhy
      cases hwhy

/-- Gates stick to a decision, whatever store they share: one in memory with any values, or one in a
file at any plain path on any disk. -/
theorem required_sticks {transport : Transport τ} {calls : List GateCall}
    (hothers : ∀ key' value, GateCall.set key' value ∈ calls →
      Text.asciiLower key' ≠ "beyond_corp") :
    (∀ (first : Session (SortedMap String) τ) (past future : List (GateEvent (SortedMap String) τ))
      (event : GateEvent (SortedMap String) τ),
      trace (Session.step MemoryState.store transport) first calls = past ++ event :: future →
      Sticks MemoryState.store first past event)
    ∧ ∀ (p : Path), p.isPlain = true → ∀ (first : Session Disk τ)
      (past future : List (GateEvent Disk τ)) (event : GateEvent Disk τ),
      trace (Session.step (FileState.store p) transport) first calls = past ++ event :: future →
      Sticks (FileState.store p) first past event :=
  ⟨fun _ _ _ _ h => sticks MemoryState.store_isSeenAs hothers h,
    fun _ hplain _ _ _ _ h => sticks (FileState.store_isSeenAs hplain) hothers h⟩

/-- A gate on a device with nothing on it. -/
def bareGate (config : Config) : Gate :=
  ⟨config, .fixed [] [] none none, MemoryFiles.empty.source⟩

/-- Somebody sets another value, and a gate that does not use signed URLs asks. -/
def otherCalls : List GateCall :=
  [.set "Key" "x", .required (bareGate .default)]

/-- A gate uses signed URLs before that. -/
def mixedCalls : List GateCall :=
  .required (bareGate (.enabled "http://sign" ⟨"seed"⟩)) :: otherCalls

/-- A disk on which a decision is written with capitals and blanks. -/
def shoutedDisk : Disk :=
  ⟨[("state.json", .file (Utf8.encode "\x7b\"Beyond_Corp\": \" TRUE \"\x7d"))], []⟩

/-- The last gate is told what the first one has settled. Without the first one it is told what the
file says, and asking does not change the file. -/
theorem required_sticks_mixedCalls :
    (∀ key' value, GateCall.set key' value ∈ mixedCalls → Text.asciiLower key' ≠ "beyond_corp")
    ∧ (∃ past event,
        trace (Session.step MemoryState.store .queue) ⟨.empty, [], []⟩ mixedCalls = past ++ [event]
        ∧ event.reply = .required (.ok true)
        ∧ Sticks MemoryState.store ⟨.empty, [], []⟩ past event)
    ∧ (⟨"state.json"⟩ : Path).isPlain = true
    ∧ Holds (FileState.store ⟨"state.json"⟩) shoutedDisk true
    ∧ ∃ event,
        trace (Session.step (FileState.store ⟨"state.json"⟩) .queue) ⟨shoutedDisk, [], []⟩
          [.required (bareGate .default)] = [event]
        ∧ event.reply = .required (.ok true) ∧ event.after.store = shoutedDisk := by
  have hkey : Text.asciiLower "Key" ≠ "beyond_corp" := by decide +kernel
  have hothers : ∀ key' value, GateCall.set key' value ∈ mixedCalls →
      Text.asciiLower key' ≠ "beyond_corp" := by
    intro key' value hmem
    obtain ⟨rfl, -⟩ : key' = "Key" ∧ value = "x" := by simpa [mixedCalls, otherCalls] using hmem
    exact hkey
  have hstored : stored? MemoryState.store
      (MemoryState.set (MemoryState.set .empty key (text true)) "Key" "x") = some true := by
    rw [stored?_seen MemoryState.store_isSeenAs rfl, get?_set_other _ _ hkey, State.get?_set,
      if_pos rfl, Option.bind_some, ofText?_text]
  have hlast : (required false).run MemoryState.store
      (MemoryState.set (MemoryState.set .empty key (text true)) "Key" "x")
      = (MemoryState.set (MemoryState.set .empty key (text true)) "Key" "x", .ok true) := by
    rw [required_false_run, hstored]
  have hplain : (⟨"state.json"⟩ : Path).isPlain = true := by decide +kernel
  have hget : ((FileState.store ⟨"state.json"⟩).get shoutedDisk "beyond_corp").toOption
      = some (some " TRUE ") := by decide +kernel
  have hholds : Holds (FileState.store ⟨"state.json"⟩) shoutedDisk true :=
    ⟨" TRUE ", Steps.toOption_eq_some_iff.mp hget, by decide⟩
  have htold : (required false).run (FileState.store ⟨"state.json"⟩) shoutedDisk
      = (shoutedDisk, .ok true) := by
    rw [required_false_run, stored?_eq_some_iff.mpr hholds]
  have hsticks := @required_sticks _ .queue [.required (bareGate .default)] (by simp)
  have hsame := (hsticks.2 _ hplain ⟨shoutedDisk, [], []⟩ [] [] _ rfl).unchanged _ true rfl rfl
    hholds
  exact ⟨hothers, ⟨[_, _], _, rfl, congrArg GateReply.required (congrArg Prod.snd hlast),
    (required_sticks hothers).1 _ [_, _] [] _ rfl⟩, hplain, hholds, _, rfl,
    congrArg GateReply.required (congrArg Prod.snd htold), hsame⟩

end Decision

end BootTrust
