import BootTrust.Gate.SignedUrl
/-
Gates at the same time. Several gates share one store, and each of them asks whether signed URLs are
required as often as it likes. Looking up a value is one step of the store and setting one is
another, so between the two steps of one call there is room for the steps of others. Which call
makes the next step is left open: a run is any list of moves, and a move either begins a call or
takes one a step further.
-/

set_option autoImplicit false

namespace BootTrust

/-- A call of a gate for the decision, with what remains of its program. -/
structure OpenCall where
  gate : Gate
  rest : StateProgram (Except StateError Bool)

/-- The answer of a call that has returned with one. -/
def OpenCall.answer? (call : OpenCall) : Option Bool :=
  match call.rest with
  | .done (.ok answer) => some answer
  | _ => none

/-- A store and the calls that use it, in the order in which they were begun. Calls that have
returned stay among them. -/
structure Crowd (σ : Type) where
  store : σ
  calls : List OpenCall

/-- What happens next. -/
inductive Move where
  /-- A gate begins a call. -/
  | start (gate : Gate)
  /-- The call with a given number makes its next request; one that has returned makes none. -/
  | advance (index : Nat)

namespace Crowd

variable {σ : Type}

def step (store : StateStore σ) (crowd : Crowd σ) : Move → Crowd σ
  | .start gate => { crowd with calls := crowd.calls ++ [⟨gate, gate.required⟩] }
  | .advance index =>
    match crowd.calls[index]? with
    | none => crowd
    | some call =>
      let (state, rest) := call.rest.advance store crowd.store
      ⟨state, crowd.calls.set index ⟨call.gate, rest⟩⟩

/-- What a list of moves leaves. -/
def run (store : StateStore σ) (crowd : Crowd σ) (moves : List Move) : Crowd σ :=
  moves.foldl (step store) crowd

end Crowd

end BootTrust
