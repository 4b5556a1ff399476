/-
Runs of calls. Something with a state takes one call after another and replies to each; an `Event`
is one call with its reply and the states around it, and a `trace` is all that happens in a run.

What holds throughout a run is shown once, in `invariant_before`: it has to hold at the beginning
and to outlast each call. It may speak of the past of the run and not only of the state.
-/

set_option autoImplicit false

namespace BootTrust

variable {σ κ ρ : Type}

/-- A call, its reply, and the states before and after it. -/
structure Event (σ κ ρ : Type) where
  before : σ
  call : κ
  reply : ρ
  after : σ

/-- What happens when calls are made one after another. -/
def trace (step : σ → κ → σ × ρ) : σ → List κ → List (Event σ κ ρ)
  | _, [] => []
  | state, call :: calls =>
    ⟨state, call, (step state call).2, (step state call).1⟩ :: trace step (step state call).1 calls

namespace Event

variable {step : σ → κ → σ × ρ} {state : σ} {calls : List κ} {event : Event σ κ ρ}

/-- An event of a run is what one step does with one of the calls. -/
theorem of_mem_trace (h : event ∈ trace step state calls) :
    event.call ∈ calls ∧ step event.before event.call = (event.after, event.reply) := by
  induction calls generalizing state with
  | nil => cases h
  | cons call calls ih =>
    rcases List.mem_cons.mp h with rfl | h
    · exact ⟨List.mem_cons_self, rfl⟩
    · obtain ⟨hcall, hstep⟩ := ih h
      exact ⟨List.mem_cons_of_mem _ hcall, hstep⟩

/-- What holds at the beginning of a run and outlasts each call holds before every event. -/
theorem invariant_before {holds : List (Event σ κ ρ) → σ → Prop} (hstart : holds [] state)
    (hstep : ∀ past event, event.call ∈ calls →
      step event.before event.call = (event.after, event.reply) →
      holds past event.before → holds (past ++ [event]) event.after)
    {past future : List (Event σ κ ρ)} (h : trace step state calls = past ++ event :: future) :
    holds past event.before := by
  -- the induction starts anywhere in the run, with what has happened so far
  have hrun : ∀ (calls' : List κ) (state : σ) (done past : List (Event σ κ ρ)), calls' ⊆ calls →
      holds done state → trace step state calls' = past ++ event :: future →
      holds (done ++ past) event.before := by
    intro calls'
    induction calls' with
    | nil =>
      intro state done past _ _ heq
      rcases past with _ | ⟨first, past⟩
      · cases heq
      · cases heq
    | cons call calls' ih =>
      intro state done past hsub hdone heq
      rcases past with _ | ⟨first, past⟩
      · obtain ⟨rfl, -⟩ := List.cons.inj heq
        rwa [List.append_nil]
      · obtain ⟨rfl, hrest⟩ := List.cons.inj heq
        rw [List.append_cons]
        refine ih _ _ past (fun c hc => hsub (List.mem_cons_of_mem _ hc)) ?_ hrest
        exact hstep done _ (hsub List.mem_cons_self) rfl hdone
  have := hrun calls state [] past (fun _ h => h) hstart h
  rwa [List.nil_append] at this

end Event

end BootTrust
