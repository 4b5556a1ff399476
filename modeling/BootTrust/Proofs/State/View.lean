import BootTrust.Proofs.State.Keys
/-
Stores seen as maps. A store in memory is a map; a store in a file is one as long as the file can be
read. The laws of `IsSeenAs` are all that programs with a store rest on: what they are told by a
store that is seen as a map is what the map says, a value that was set is in the map, and one that
could not be set is not. A store that cannot be read refuses everything and stays as it is.

Whether a store that can be read may stop to be readable is a matter of its own, `fragile`: it never
is in memory, and in a file only for some paths.
-/

set_option autoImplicit false

namespace BootTrust

variable {σ : Type}

/-- The laws of a store that `view` shows as a map, or not at all. -/
structure StateStore.IsSeenAs (store : StateStore σ) (view : σ → Option (SortedMap String))
    (fragile : Prop) : Prop where
  get_seen : ∀ {state values} (key : String), view state = some values →
    store.get state key = .ok (MemoryState.get? values key)
  get_unseen : ∀ {state} (key : String), view state = none → ∃ e, store.get state key = .error e
  set_unseen : ∀ {state} (key value : String), view state = none →
    ∃ e, store.set state key value = (state, .error e)
  set_ok : ∀ {state state' values} {key value : String}, view state = some values →
    store.set state key value = (state', .ok ()) →
    view state' = some (MemoryState.set values key value)
  set_error : ∀ {state state' values} {key value : String} {e : StateError},
    view state = some values → store.set state key value = (state', .error e) →
    view state' = some values ∨ view state' = none ∧ fragile

/-- A store in memory is the map that it holds. -/
theorem MemoryState.store_isSeenAs : MemoryState.store.IsSeenAs some False where
  get_seen key h := by
    cases h
    rfl
  get_unseen key h := by cases h
  set_unseen key value h := by cases h
  set_ok h hset := by
    cases h
    cases hset
    rfl
  set_error h hset := by cases hset

end BootTrust
