/-
Steps that can fail, one after another. A step is an `Except` value, and a sequence of steps goes on
as long as each of them succeeds. These are the laws by which a sequence is taken apart from its
front: it succeeds when every step does, and it fails with what its first failing step reports.

Two small steps have names of their own, one that checks a condition and one that takes what is
there. And a step can be judged by its value alone, if it has one, or by its failure.
-/

set_option autoImplicit false

namespace BootTrust.Steps

variable {ε ε' α β : Type}

/-- A sequence succeeds when its first step does and the others go through with that step's
value. -/
theorem bind_eq_ok_iff {x : Except ε α} {f : α → Except ε β} {b : β} :
    x >>= f = .ok b ↔ ∃ a, x = .ok a ∧ f a = .ok b := by
  rcases x with e | a
  · simp [bind, Except.bind]
  · simp [bind, Except.bind]

/-- A sequence fails in its first step, or after it. -/
theorem bind_eq_error_iff {x : Except ε α} {f : α → Except ε β} {e : ε} :
    x >>= f = .error e ↔ x = .error e ∨ ∃ a, x = .ok a ∧ f a = .error e := by
  rcases x with e | a
  · simp [bind, Except.bind]
  · simp [bind, Except.bind]

/-- What is made of a value does not make a failure a success. -/
theorem map_eq_ok_iff {x : Except ε α} {f : α → β} {b : β} :
    f <$> x = .ok b ↔ ∃ a, x = .ok a ∧ f a = b := by
  rcases x with e | a
  · simp [Functor.map, Except.map]
  · simp [Functor.map, Except.map]

theorem mapError_error (e : ε) (g : ε → ε') :
    (Except.error e : Except ε α).mapError g = .error (g e) := rfl

theorem mapError_ok (a : α) (g : ε → ε') : (Except.ok a : Except ε α).mapError g = .ok a := rfl

/-- Giving a failure another name does not touch a value. -/
theorem mapError_eq_ok_iff {x : Except ε α} {g : ε → ε'} {a : α} :
    x.mapError g = .ok a ↔ x = .ok a := by
  rcases x with e | a
  · simp [mapError_error]
  · simp [mapError_ok]

/-- Checks a condition. -/
def check (condition : Bool) (e : ε) : Except ε Unit :=
  if condition then .ok () else .error e

theorem check_eq_ok_iff {condition : Bool} {e : ε} :
    check condition e = .ok () ↔ condition = true := by
  rcases condition with _ | _
  · simp [check]
  · simp [check]

/-- Takes what is there. -/
def take (x : Option α) (e : ε) : Except ε α :=
  match x with
  | some a => .ok a
  | none => .error e

theorem take_eq_ok_iff {x : Option α} {e : ε} {a : α} : take x e = .ok a ↔ x = some a := by
  rcases x with _ | b
  · simp [take]
  · simp [take]

/-! ## Values -/

theorem toOption_eq_some_iff {x : Except ε α} {a : α} : x.toOption = some a ↔ x = .ok a := by
  rcases x with e | b
  · simp [Except.toOption]
  · simp [Except.toOption]

theorem toOption_eq_none_iff {x : Except ε α} : x.toOption = none ↔ ∃ e, x = .error e := by
  rcases x with e | b
  · simp [Except.toOption]
  · simp [Except.toOption]

/-- Something is made of a value if and only if there is one. -/
theorem toOption_map_eq_some_iff {x : Except ε α} {f : α → β} {b : β} :
    x.toOption.map f = some b ↔ ∃ a, x = .ok a ∧ f a = b := by
  simp only [Option.map_eq_some_iff, toOption_eq_some_iff]

/-! ## Failures -/

/-- The failure of a step, if it fails. -/
def failure? (x : Except ε α) : Option ε :=
  match x with
  | .ok _ => none
  | .error e => some e

theorem failure?_eq_some_iff {x : Except ε α} {e : ε} : failure? x = some e ↔ x = .error e := by
  rcases x with e' | a
  · simp [failure?]
  · simp [failure?]

theorem failure?_eq_none_iff {x : Except ε α} : failure? x = none ↔ ∃ a, x = .ok a := by
  rcases x with e | a
  · simp [failure?]
  · simp [failure?]

theorem failure?_mapError (x : Except ε α) (g : ε → ε') :
    failure? (x.mapError g) = (failure? x).map g := by
  rcases x with e | a
  · rfl
  · rfl

/-- The first failure wins. If `own` knows what the first step fails with, and what the first of the
other steps fails with as far as the sequence gets there, it knows what the sequence fails with. -/
theorem failure?_bind {κ : Type} {x : Except ε α} {f : α → Except ε β} {own : κ → Option ε}
    {step : κ} {steps : List κ} (hown : own step = failure? x)
    (hrest : ∀ a, x = .ok a → failure? (f a) = steps.findSome? own) :
    failure? (x >>= f) = (step :: steps).findSome? own := by
  rw [List.findSome?_cons, hown]
  rcases x with e | a
  · rfl
  · exact hrest a rfl

end BootTrust.Steps
