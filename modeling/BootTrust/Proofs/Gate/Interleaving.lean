import BootTrust.Gate.Crowd
import BootTrust.Proofs.Gate.Stickiness
import Mathlib.Data.List.Induction
/-
Gates that share a store in memory and take turns. A gate that uses signed URLs settles the
decision in one step, and after that every call that begins is told so, with one exception that
lies in the past: a call of a gate without signed URLs that had looked for a decision before that
step, and had found none, still goes on to keep the answer no. Such a call is late
(`OpenCall.IsLate`). Nothing stops it, since looking up and keeping are two steps of the store, and
if its second step comes, the decision is gone.

The proof follows the calls. On a store that never fails a call is fresh, late, or has returned
(`Stage`), and what its next step does is decided by that (`Stage.advance_cases`). No call becomes
late while the store holds a decision. So as long as the calls that were late at one moment make no
step, a decision for signed URLs that was held at this moment is held on (`Settled`).
-/

set_option autoImplicit false

namespace BootTrust

namespace Decision

/-- Keeping a decision is one step in memory. -/
theorem keep_advance (decision : Bool) (values : SortedMap String) :
    (keep decision).advance MemoryState.store values
      = (MemoryState.set values key (text decision), .done (.ok decision)) :=
  rfl

/-- Without signed URLs the first step is to look the decision up. -/
theorem required_false_advance {σ : Type} (store : StateStore σ) (state : σ) :
    (required false).advance store state
      = (state, match stored? store state with
        | some decision => .done (.ok decision)
        | none => keep false) := by
  rw [required, if_neg Bool.false_ne_true, StateProgram.advance, stored?]
  rcases store.get state key with e | _ | text
  · rfl
  · rfl
  · rcases htext : ofText? text with _ | decision
    · simp only [htext]
    · simp only [htext]

/-- A call that has not begun to use the store has not returned. -/
theorem required_ne_done (use : Bool) (result : Except StateError Bool) :
    required use ≠ .done result := by
  intro h
  by_cases huse : use = true
  · rw [required, if_pos huse] at h
    cases h
  · rw [required, if_neg huse] at h
    cases h

theorem required_false_ne_keep : required false ≠ keep false := by
  intro h
  rw [required, if_neg Bool.false_ne_true] at h
  cases h

end Decision

namespace OpenCall

/-! ## How far a call has come -/

/-- Whether a call is about to keep the answer no, because it has found no decision. -/
def IsLate (call : OpenCall) : Prop :=
  call.gate.config.useSignedUrl = false ∧ call.rest = Decision.keep false

/-- How far a call has come on a store that never fails. -/
inductive Stage (call : OpenCall) : Prop where
  | fresh (hrest : call.rest = call.gate.required)
  | late (hlate : call.IsLate)
  | returned (answer : Bool) (hrest : call.rest = .done (.ok answer))
    (huse : call.gate.config.useSignedUrl = true → answer = true)

variable {call : OpenCall}

/-- What the next step of a call does. -/
theorem Stage.advance_cases (h : call.Stage) (values : SortedMap String) :
    (call.rest = call.gate.required ∧ call.gate.config.useSignedUrl = true
      ∧ call.rest.advance MemoryState.store values
        = (MemoryState.set values Decision.key (Decision.text true), .done (.ok true)))
    ∨ (call.rest = call.gate.required ∧ call.gate.config.useSignedUrl = false
      ∧ call.rest.advance MemoryState.store values
        = (values, match Decision.stored? MemoryState.store values with
          | some decision => .done (.ok decision)
          | none => Decision.keep false))
    ∨ (call.IsLate ∧ call.rest.advance MemoryState.store values
        = (MemoryState.set values Decision.key (Decision.text false), .done (.ok false)))
    ∨ ∃ answer, call.rest = .done (.ok answer)
      ∧ (call.gate.config.useSignedUrl = true → answer = true)
      ∧ call.rest.advance MemoryState.store values = (values, call.rest) := by
  rcases h with hrest | hlate | ⟨answer, hrest, huse⟩
  · by_cases huse : call.gate.config.useSignedUrl = true
    · refine Or.inl ⟨hrest, huse, ?_⟩
      rw [hrest, Gate.required, huse]
      exact Decision.keep_advance true values
    · have hnot : call.gate.config.useSignedUrl = false := by simpa using huse
      refine Or.inr (Or.inl ⟨hrest, hnot, ?_⟩)
      rw [hrest, Gate.required, hnot, Decision.required_false_advance]
  · refine Or.inr (Or.inr (Or.inl ⟨hlate, ?_⟩))
    rw [hlate.2, Decision.keep_advance]
  · refine Or.inr (Or.inr (Or.inr ⟨answer, hrest, huse, ?_⟩))
    rw [hrest, StateProgram.advance]

theorem Stage.advance (h : call.Stage) (values : SortedMap String) :
    Stage ⟨call.gate, (call.rest.advance MemoryState.store values).2⟩ := by
  rcases h.advance_cases values with ⟨-, -, heq⟩ | ⟨-, huse, heq⟩ | ⟨hlate, heq⟩
    | ⟨answer, hrest, huse, heq⟩
  · exact .returned true (by rw [heq]) fun _ => rfl
  · rcases hstored : Decision.stored? MemoryState.store values with _ | decision
    · exact .late ⟨huse, by rw [heq, hstored]⟩
    · refine .returned decision (by rw [heq, hstored]) fun huse' => ?_
      rw [huse] at huse'
      simp at huse'
  · refine .returned false (by rw [heq]) fun huse => ?_
    rw [hlate.1] at huse
    simp at huse
  · exact .returned answer (by rw [heq, hrest]) huse

/-- A call that has just begun is not late. -/
theorem not_isLate_required (gate : Gate) : ¬ IsLate ⟨gate, gate.required⟩ := by
  rintro ⟨huse, hrest⟩
  rw [Gate.required, huse] at hrest
  exact Decision.required_false_ne_keep hrest

end OpenCall

namespace Crowd

variable {σ : Type} {store : StateStore σ} {crowd : Crowd σ} {move : Move}
  {call : OpenCall} {i j : Nat}

/-! ## Moves -/

theorem run_append (store : StateStore σ) (crowd : Crowd σ) (first second : List Move) :
    run store crowd (first ++ second) = run store (run store crowd first) second :=
  List.foldl_append ..

theorem run_concat (store : StateStore σ) (crowd : Crowd σ) (moves : List Move) (move : Move) :
    run store crowd (moves ++ [move]) = (run store crowd moves).step store move :=
  run_append store crowd moves [move]

theorem step_advance (h : crowd.calls[i]? = some call) :
    crowd.step store (.advance i)
      = ⟨(call.rest.advance store crowd.store).1,
        crowd.calls.set i ⟨call.gate, (call.rest.advance store crowd.store).2⟩⟩ := by
  simp only [step, h]

/-- The call that makes a step is the one that is changed. -/
theorem getElem?_step_advance (h : crowd.calls[i]? = some call) :
    (crowd.step store (.advance i)).calls[i]?
      = some ⟨call.gate, (call.rest.advance store crowd.store).2⟩ := by
  obtain ⟨hlt, -⟩ := List.getElem?_eq_some_iff.mp h
  rw [step_advance h]
  exact List.getElem?_set_self hlt

/-- Where a call that is there after a move comes from: it was there before, it has just begun, or
it has made a step. -/
theorem getElem?_step (h : (crowd.step store move).calls[j]? = some call) :
    crowd.calls[j]? = some call
      ∨ (∃ gate, move = .start gate ∧ j = crowd.calls.length ∧ call = ⟨gate, gate.required⟩)
      ∨ ∃ before, move = .advance j ∧ crowd.calls[j]? = some before
        ∧ call = ⟨before.gate, (before.rest.advance store crowd.store).2⟩ := by
  rcases move with gate | i
  · rw [step, List.getElem?_append] at h
    split at h
    · exact Or.inl h
    · next hge =>
      obtain ⟨hzero, hcall⟩ := List.getElem?_eq_some_iff.mp h
      have hlast : j = crowd.calls.length := by
        rw [List.length_singleton] at hzero
        omega
      refine Or.inr (Or.inl ⟨gate, rfl, hlast, ?_⟩)
      rw [← hcall, List.getElem_singleton]
  · rcases hi : crowd.calls[i]? with _ | before
    · simp only [step, hi] at h
      exact Or.inl h
    · by_cases hij : i = j
      · subst hij
        rw [getElem?_step_advance hi] at h
        exact Or.inr (Or.inr ⟨before, rfl, hi, (Option.some.inj h).symm⟩)
      · rw [step_advance hi, List.getElem?_set_ne hij] at h
        exact Or.inl h

/-- A move leaves the store alone, or it is the step of some call. -/
theorem store_step (store : StateStore σ) (crowd : Crowd σ) (move : Move) :
    (crowd.step store move).store = crowd.store
      ∨ ∃ i call, move = .advance i ∧ crowd.calls[i]? = some call
        ∧ (crowd.step store move).store = (call.rest.advance store crowd.store).1 := by
  rcases move with gate | i
  · exact Or.inl rfl
  · rcases hi : crowd.calls[i]? with _ | call
    · left
      simp only [step, hi]
    · exact Or.inr ⟨i, call, rfl, hi, by rw [step_advance hi]⟩

/-- No call is forgotten. -/
theorem length_le_step (store : StateStore σ) (crowd : Crowd σ) (move : Move) :
    crowd.calls.length ≤ (crowd.step store move).calls.length := by
  rcases move with gate | i
  · rw [step, List.length_append]
    exact Nat.le_add_right _ _
  · rcases hi : crowd.calls[i]? with _ | call
    · simp only [step, hi]
      exact Nat.le_refl _
    · refine Nat.le_of_eq ?_
      rw [step_advance hi, List.length_set]

/-- The steps of a call that nobody interrupts come to what its program does when it is run as a
whole. -/
theorem exists_run_alone (store : StateStore σ) (h : crowd.calls[i]? = some call) :
    ∃ steps, run store crowd (List.replicate steps (.advance i))
      = ⟨(call.rest.run store crowd.store).1,
        crowd.calls.set i ⟨call.gate, .done (call.rest.run store crowd.store).2⟩⟩ := by
  obtain ⟨gate, rest⟩ := call
  -- after one step the call has a smaller program, and the store is what this step has left
  have hstep : ∀ {crowd : Crowd σ} {rest : StateProgram (Except StateError Bool)},
      crowd.calls[i]? = some ⟨gate, rest⟩ →
      (∀ after : Crowd σ, after.calls[i]? = some ⟨gate, (rest.advance store crowd.store).2⟩ →
        ∃ steps, run store after (List.replicate steps (.advance i))
          = ⟨((rest.advance store crowd.store).2.run store after.store).1, after.calls.set i
              ⟨gate, .done ((rest.advance store crowd.store).2.run store after.store).2⟩⟩) →
      ∃ steps, run store crowd (List.replicate steps (.advance i))
        = ⟨(rest.run store crowd.store).1,
          crowd.calls.set i ⟨gate, .done (rest.run store crowd.store).2⟩⟩ := by
    intro crowd rest hcall ih
    obtain ⟨steps, hsteps⟩ := ih _ (getElem?_step_advance hcall)
    refine ⟨steps + 1, ?_⟩
    rw [step_advance hcall] at hsteps
    rw [List.replicate_succ, run, List.foldl_cons, ← run, step_advance hcall, hsteps,
      StateProgram.run_advance, List.set_set]
  induction rest generalizing crowd with
  | done result =>
    obtain ⟨hlt, hget⟩ := List.getElem?_eq_some_iff.mp h
    exact ⟨0, by rw [StateProgram.run, ← hget, List.set_getElem_self]; rfl⟩
  | get key next ih => exact hstep h fun after hafter => ih _ hafter
  | set key value next ih => exact hstep h fun after hafter => ih _ hafter

/-- So a call that is begun and not interrupted is a call as a whole. -/
theorem exists_call_alone (store : StateStore σ) (crowd : Crowd σ) (gate : Gate) :
    ∃ steps, run store crowd (.start gate :: List.replicate steps (.advance crowd.calls.length))
      = ⟨(gate.required.run store crowd.store).1,
        crowd.calls ++ [⟨gate, .done (gate.required.run store crowd.store).2⟩]⟩ := by
  have hbegun : (crowd.step store (.start gate)).calls[crowd.calls.length]?
      = some ⟨gate, gate.required⟩ := List.getElem?_concat_length
  obtain ⟨steps, hsteps⟩ := exists_run_alone store hbegun
  refine ⟨steps, ?_⟩
  rw [run, List.foldl_cons, ← run, hsteps, step, List.set_append_right _ _ (Nat.le_refl _),
    Nat.sub_self]
  rfl

/-- A call that has returned did so in one of its steps. -/
theorem exists_return {values : σ} {moves : List Move} {result : Except StateError Bool}
    (hcall : (run store ⟨values, []⟩ moves).calls[i]? = some call)
    (hdone : call.rest = .done result) :
    ∃ before after pending, moves = before ++ .advance i :: after
      ∧ (run store ⟨values, []⟩ before).calls[i]? = some pending
      ∧ (∀ other, pending.rest ≠ .done other)
      ∧ (run store ⟨values, []⟩ (before ++ [.advance i])).calls[i]? = some call := by
  -- from the last move backwards, to the one at which the call had not returned before
  induction moves using List.reverseRecOn with
  | nil => cases hcall
  | append_singleton moves move ih =>
    have hearlier : (run store ⟨values, []⟩ moves).calls[i]? = some call →
        ∃ before after pending, moves ++ [move] = before ++ .advance i :: after
          ∧ (run store ⟨values, []⟩ before).calls[i]? = some pending
          ∧ (∀ other, pending.rest ≠ .done other)
          ∧ (run store ⟨values, []⟩ (before ++ [.advance i])).calls[i]? = some call := by
      intro hold
      obtain ⟨before, after, pending, hsplit, hrest⟩ := ih hold
      refine ⟨before, after ++ [move], pending, ?_, hrest⟩
      rw [hsplit, List.append_assoc, List.cons_append]
    have hlast := hcall
    rw [run_concat] at hcall
    rcases getElem?_step hcall with hold | ⟨gate, -, -, rfl⟩ | ⟨pending, rfl, hpending, heq⟩
    · exact hearlier hold
    · exact absurd hdone (Decision.required_ne_done _ _)
    · rcases hrest : pending.rest with other | ⟨key, next⟩ | ⟨key, value, next⟩
      -- it had returned already, and the step was none
      · refine hearlier ?_
        rw [hpending, heq, hrest, StateProgram.advance, ← hrest]
      · exact ⟨moves, [], pending, rfl, hpending,
          fun other hother => by simp [hrest] at hother, hlast⟩
      · exact ⟨moves, [], pending, rfl, hpending,
          fun other hother => by simp [hrest] at hother, hlast⟩

/-! ## In memory -/

/-- Whether every call is in one of its stages. -/
def Orderly (crowd : Crowd (SortedMap String)) : Prop :=
  ∀ (j : Nat) (call : OpenCall), crowd.calls[j]? = some call → call.Stage

theorem Orderly.step {crowd : Crowd (SortedMap String)} (h : crowd.Orderly) (move : Move) :
    (crowd.step MemoryState.store move).Orderly := by
  intro j call hcall
  rcases getElem?_step hcall with hold | ⟨gate, -, -, rfl⟩ | ⟨before, -, hbefore, rfl⟩
  · exact h j call hold
  · exact .fresh rfl
  · exact (h j before hbefore).advance crowd.store

theorem orderly_run (values : SortedMap String) (moves : List Move) :
    (run MemoryState.store ⟨values, []⟩ moves).Orderly := by
  induction moves using List.reverseRecOn with
  | nil =>
    intro j call hcall
    cases hcall
  | append_singleton moves move ih =>
    rw [run_concat]
    exact ih.step move

/-- Whether the call with a given number is late. -/
def IsLateAt (crowd : Crowd σ) (j : Nat) : Prop :=
  ∃ call, crowd.calls[j]? = some call ∧ call.IsLate

/-- Whether the decision for signed URLs is held and only calls from the past can undo it: no call
is late but those that `late` knows, and those that began after the first so many know of nothing
else. -/
structure Settled (late : Nat → Prop) (first : Nat) (crowd : Crowd (SortedMap String)) : Prop where
  stored : Decision.stored? MemoryState.store crowd.store = some true
  lateOnly : ∀ j, crowd.IsLateAt j → late j
  began : first ≤ crowd.calls.length
  later : ∀ j call, first ≤ j → crowd.calls[j]? = some call →
    call.rest = call.gate.required ∨ call.rest = .done (.ok true)

variable {late : Nat → Prop} {first : Nat} {shared : Crowd (SortedMap String)}

theorem stored?_set_memory (values : SortedMap String) (decision : Bool) :
    Decision.stored? MemoryState.store
      (MemoryState.set values Decision.key (Decision.text decision)) = some decision :=
  Decision.stored?_set MemoryState.store_isSeenAs rfl

/-- As long as the decision is held, the next step of a call that is not late keeps it, and the call
does not become late. If it has just begun, it returns with the decision. -/
theorem advance_of_stored (hstage : call.Stage) (hnot : ¬ call.IsLate)
    {values : SortedMap String} (hstored : Decision.stored? MemoryState.store values = some true) :
    Decision.stored? MemoryState.store (call.rest.advance MemoryState.store values).1 = some true
      ∧ ∃ answer, (call.rest.advance MemoryState.store values).2 = .done (.ok answer)
        ∧ (call.rest = call.gate.required ∨ call.rest = .done (.ok true) → answer = true) := by
  rcases hstage.advance_cases values with ⟨-, -, heq⟩ | ⟨-, -, heq⟩ | ⟨hlate, -⟩
    | ⟨answer, hrest, -, heq⟩
  · rw [heq]
    exact ⟨stored?_set_memory values true, true, rfl, fun _ => rfl⟩
  · rw [heq, hstored]
    exact ⟨rfl, true, rfl, fun _ => rfl⟩
  · exact absurd hlate hnot
  · rw [heq, hrest]
    refine ⟨hstored, answer, rfl, ?_⟩
    rintro (hfresh | htrue)
    · exact absurd hfresh.symm (Decision.required_ne_done _ _)
    · cases htrue
      rfl

theorem Settled.step (h : Settled late first shared) (horderly : shared.Orderly) {move : Move}
    (hmove : ∀ j, move = .advance j → ¬ late j) :
    Settled late first (shared.step MemoryState.store move) := by
  have hnot : ∀ j before, move = .advance j → shared.calls[j]? = some before → ¬ before.IsLate :=
    fun j before hmove' hbefore hlate => hmove j hmove' (h.lateOnly j ⟨before, hbefore, hlate⟩)
  refine ⟨?_, ?_, Nat.le_trans h.began (length_le_step _ _ _), ?_⟩
  · rcases store_step MemoryState.store shared move with hsame | ⟨i, before, heq, hbefore, hchange⟩
    · rw [hsame]
      exact h.stored
    · rw [hchange]
      exact (advance_of_stored (horderly i before hbefore) (hnot i before heq hbefore) h.stored).1
  · rintro j ⟨call, hcall, hlate⟩
    rcases getElem?_step hcall with hold | ⟨gate, -, -, rfl⟩ | ⟨before, heq, hbefore, rfl⟩
    · exact h.lateOnly j ⟨call, hold, hlate⟩
    · exact absurd hlate (OpenCall.not_isLate_required gate)
    · obtain ⟨-, answer, hanswer, -⟩ :=
        advance_of_stored (horderly j before hbefore) (hnot j before heq hbefore) h.stored
      have hkeep := hlate.2
      rw [hanswer] at hkeep
      cases hkeep
  · intro j call hj hcall
    rcases getElem?_step hcall with hold | ⟨gate, -, -, rfl⟩ | ⟨before, heq, hbefore, rfl⟩
    · exact h.later j call hj hold
    · exact Or.inl rfl
    · obtain ⟨-, answer, hanswer, htrue⟩ :=
        advance_of_stored (horderly j before hbefore) (hnot j before heq hbefore) h.stored
      right
      rw [hanswer, htrue (h.later j before hj hbefore)]

theorem Settled.run (h : Settled late first shared) (horderly : shared.Orderly) {moves : List Move}
    (hmoves : ∀ j, .advance j ∈ moves → ¬ late j) :
    Settled late first (Crowd.run MemoryState.store shared moves) := by
  induction moves generalizing shared with
  | nil => exact h
  | cons move moves ih =>
    refine ih (h.step horderly fun j hj => ?_) (horderly.step move) fun j hj => ?_
    · exact hmoves j (hj ▸ List.mem_cons_self)
    · exact hmoves j (List.mem_cons_of_mem _ hj)

/-- A call for signed URLs that returns has settled the decision. -/
theorem settled_of_return {i : Nat} {pending call : OpenCall} (horderly : shared.Orderly)
    (hpending : shared.calls[i]? = some pending) (hopen : ∀ other, pending.rest ≠ .done other)
    (hcall : (shared.step MemoryState.store (.advance i)).calls[i]? = some call)
    (huse : call.gate.config.useSignedUrl = true) :
    call.rest = .done (.ok true)
      ∧ Settled (shared.step MemoryState.store (.advance i)).IsLateAt
          (shared.step MemoryState.store (.advance i)).calls.length
          (shared.step MemoryState.store (.advance i)) := by
  rw [getElem?_step_advance hpending] at hcall
  obtain rfl := Option.some.inj hcall
  rcases (horderly i pending hpending).advance_cases shared.store
    with ⟨-, -, heq⟩ | ⟨-, hnot, -⟩ | ⟨hlate, -⟩ | ⟨answer, hrest, -, -⟩
  · refine ⟨by rw [heq], ?_, fun j hj => hj, Nat.le_refl _, fun j call hj hcall => ?_⟩
    · rw [step_advance hpending, heq]
      exact stored?_set_memory shared.store true
    · rw [List.getElem?_eq_none hj] at hcall
      cases hcall
  · rw [hnot] at huse
    simp at huse
  · have hnot : pending.gate.config.useSignedUrl = false := hlate.1
    rw [hnot] at huse
    simp at huse
  · exact absurd hrest (hopen _)

/-- The step of a late call undoes whatever is held. -/
theorem stored?_of_late (h : shared.calls[j]? = some call) (hlate : call.IsLate) :
    Decision.stored? MemoryState.store (shared.step MemoryState.store (.advance j)).store
      = some false := by
  rw [step_advance h, hlate.2, Decision.keep_advance]
  exact stored?_set_memory shared.store false

/-! ## The decision of a gate that uses signed URLs -/

/-- That a decision for signed URLs prevails from one moment on, through the moves that come after
it, as far as it does. -/
structure Prevails (written : Crowd (SortedMap String)) (after : List Move) : Prop where
  /-- It is held at first. -/
  stored : Decision.Holds MemoryState.store written.store true
  /-- It is held on as long as no call makes a step that was late at that moment. -/
  held : (∀ j, .advance j ∈ after → ¬ written.IsLateAt j) →
    Decision.Holds MemoryState.store (run MemoryState.store written after).store true
  /-- As long as this is so, a call that began after that moment has returned with it, or will
  return with it in its next step. -/
  answered : (∀ j, .advance j ∈ after → ¬ written.IsLateAt j) →
    ∀ j later, written.calls.length ≤ j →
      (run MemoryState.store written after).calls[j]? = some later →
      (∀ result, later.rest = .done result → result = .ok true)
        ∧ ((run MemoryState.store written after).step MemoryState.store (.advance j)).calls[j]?
          = some ⟨later.gate, .done (.ok true)⟩
  /-- The step of a call that is late does undo it. -/
  undone : ∀ j later, (run MemoryState.store written after).calls[j]? = some later → later.IsLate →
    Decision.Holds MemoryState.store
      ((run MemoryState.store written after).step MemoryState.store (.advance j)).store false

theorem Settled.prevails {written : Crowd (SortedMap String)}
    (h : Settled written.IsLateAt written.calls.length written) (horderly : written.Orderly)
    {after : List Move} (horderly' : (Crowd.run MemoryState.store written after).Orderly) :
    Prevails written after := by
  refine ⟨Decision.stored?_eq_some_iff.mp h.stored,
    fun hafter => Decision.stored?_eq_some_iff.mp (h.run horderly hafter).stored,
    fun hafter j later hj hlater => ?_,
    fun j later hlater hlate => Decision.stored?_eq_some_iff.mp (stored?_of_late hlater hlate)⟩
  have hnow := h.run horderly hafter
  have hstage := horderly' j later hlater
  constructor
  · intro result hresult
    rcases hnow.later j later hj hlater with hfresh | htrue
    · exact absurd (hfresh.symm.trans hresult) (Decision.required_ne_done _ _)
    · rw [htrue] at hresult
      cases hresult
      rfl
  · have hnot : ¬ later.IsLate := by
      intro hlate
      rcases hnow.later j later hj hlater with hfresh | htrue
      · rw [Gate.required, hlate.1, hlate.2] at hfresh
        exact Decision.required_false_ne_keep hfresh.symm
      · rw [hlate.2] at htrue
        cases htrue
    obtain ⟨-, answer, hanswer, htrue⟩ := advance_of_stored hstage hnot hnow.stored
    rw [getElem?_step_advance hlater, hanswer, htrue (hnow.later j later hj hlater)]

/-- A call of a gate that uses signed URLs returns with yes, in a step that settles the decision,
and from that step on the decision prevails, however the calls are interleaved. -/
theorem enabled_prevails {values : SortedMap String} {moves : List Move} {i : Nat} {call : OpenCall}
    {result : Except StateError Bool}
    (hcall : (run MemoryState.store ⟨values, []⟩ moves).calls[i]? = some call)
    (huse : call.gate.config.useSignedUrl = true) (hdone : call.rest = .done result) :
    result = .ok true ∧ ∃ before after pending, moves = before ++ .advance i :: after
      ∧ (run MemoryState.store ⟨values, []⟩ before).calls[i]? = some pending
      ∧ (∀ other, pending.rest ≠ .done other)
      ∧ Prevails (run MemoryState.store ⟨values, []⟩ (before ++ [.advance i])) after := by
  obtain ⟨before, after, pending, hsplit, hpending, hopen, hreturned⟩ := exists_return hcall hdone
  have hbefore := orderly_run values before
  have hwritten := orderly_run values (before ++ [.advance i])
  have hall := orderly_run values moves
  rw [hsplit, List.append_cons, run_append] at hall
  have hstep := hreturned
  rw [run_concat] at hstep
  obtain ⟨hresult, hsettled⟩ := settled_of_return hbefore hpending hopen hstep huse
  rw [← run_concat] at hsettled
  refine ⟨?_, before, after, pending, hsplit, hpending, hopen, hsettled.prevails hwritten hall⟩
  rw [hresult] at hdone
  cases hdone
  rfl

/-- A gate that uses signed URLs, on a device with nothing on it. -/
def enabledGate : Gate :=
  Decision.bareGate (.enabled "http://sign" ⟨"seed"⟩)

/-- A gate that does not. -/
def disabledGate : Gate :=
  Decision.bareGate .default

/-- The first call settles the decision, and the second one is about to be told. -/
theorem enabled_prevails_inTurn :
    ∃ call, (run MemoryState.store ⟨.empty, []⟩
        [.start enabledGate, .advance 0, .start disabledGate]).calls[0]? = some call
      ∧ call.gate.config.useSignedUrl = true ∧ call.rest = .done (.ok true)
      ∧ ∃ before after, [Move.start enabledGate, .advance 0, .start disabledGate]
          = before ++ .advance 0 :: after
        ∧ Prevails (run MemoryState.store ⟨.empty, []⟩ (before ++ [.advance 0])) after := by
  have hcall : (run MemoryState.store ⟨.empty, []⟩
      [.start enabledGate, .advance 0, .start disabledGate]).calls[0]?
      = some ⟨enabledGate, .done (.ok true)⟩ := rfl
  obtain ⟨-, before, after, pending, hsplit, -, -, hprevails⟩ := enabled_prevails hcall rfl rfl
  exact ⟨_, hcall, rfl, rfl, before, after, hsplit, hprevails⟩

/-- The first call looks for a decision and finds none; then the second one settles it. -/
def overtaken : List Move :=
  [.start disabledGate, .advance 0, .start enabledGate, .advance 1]

/-- After that the first call keeps the answer no, and a third one is told so. -/
def overtaking : List Move :=
  [.advance 0, .start disabledGate, .advance 2]

/-- A call for signed URLs has returned, and yet the decision is against them afterwards, and a call
that begins afterwards returns with no. -/
theorem enabled_overtaken :
    (∃ call, (run MemoryState.store ⟨.empty, []⟩ overtaken).calls[1]? = some call
      ∧ call.gate.config.useSignedUrl = true ∧ call.answer? = some true)
    ∧ (run MemoryState.store ⟨.empty, []⟩ overtaken).calls.length = 2
    ∧ Decision.Holds MemoryState.store
        (run MemoryState.store ⟨.empty, []⟩ (overtaken ++ overtaking)).store false
    ∧ ∃ call, (run MemoryState.store ⟨.empty, []⟩ (overtaken ++ overtaking)).calls[2]? = some call
      ∧ call.answer? = some false := by
  refine ⟨⟨_, rfl, rfl, rfl⟩, rfl, Decision.stored?_eq_some_iff.mp (by decide +kernel), _, rfl, ?_⟩
  decide +kernel

end Crowd

end BootTrust
