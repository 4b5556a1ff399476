import BootTrust.IoFailure
import BootTrust.Json.Fault
import BootTrust.SortedMap
import BootTrust.Text.AsciiCase
/-
Stores of state, and programs that use them. All that a program needs of a store is to look up a
value and to set one, so a `StateProgram` is a tree of such requests: running it on a store is one
thing, and taking it one request at a time, between the requests of others, is another.

Keys are compared without regard to the case of ASCII letters; inside a store a key is always
written small. A map from elsewhere may have several spellings of one key: `foldKeys` keeps the
small spelling if it is among them, and otherwise the one that comes first in the order of the keys.

The store held in memory is here as well: a map with small keys.
-/

set_option autoImplicit false

namespace BootTrust

/-! ## Failures -/

/-- Why the state cannot be read or written. A store reports the key it was asked about and, in
words, what stood in the way; that is itself one of the other two failures, a file that cannot be
accessed or one that holds something else than a state. -/
inductive StateError where
  | read (key reason : String)
  | write (key reason : String)
  | io (cause : IoFailure)
  | corrupt (cause : Json.ReadError)

namespace StateError

def message : StateError → String
  | .read key reason => "failed to read state value " ++ key ++ ": " ++ reason
  | .write key reason => "failed to write state value " ++ key ++ ": " ++ reason
  | .io cause => "state file I/O error: " ++ cause.message
  | .corrupt cause => "state file is corrupt: " ++ cause.message

/-- The failures behind this one, in words, the nearest first. -/
def sources : StateError → List String
  | .read .. | .write .. => []
  | .io cause => [cause.message]
  | .corrupt cause => [cause.message]

end StateError

/-! ## Keys -/

namespace State

/-- The spelling of a key inside a store. -/
def normalizeKey (key : String) : String :=
  Text.asciiLower key

/-- Adds an entry of a map with arbitrary spellings. A small key overrides what another spelling
left behind; any other spelling only fills a gap. -/
def foldEntry (folded : SortedMap String) (key value : String) : SortedMap String :=
  if normalizeKey key = key then folded.insert key value
  else folded.insertIfNew (normalizeKey key) value

/-- A map with all keys written small. -/
def foldKeys (raw : SortedMap String) : SortedMap String :=
  raw.entries.foldl (fun folded (key, value) => foldEntry folded key value) .empty

end State

/-! ## Stores and programs -/

/-- A store with a state of type `σ`. -/
structure StateStore (σ : Type) where
  get : σ → (key : String) → Except StateError (Option String)
  set : σ → (key value : String) → σ × Except StateError Unit

/-- A program that makes requests to a store and ends with a result. -/
inductive StateProgram (α : Type) where
  | done (result : α)
  | get (key : String) (next : Except StateError (Option String) → StateProgram α)
  | set (key value : String) (next : Except StateError Unit → StateProgram α)

/-- Runs a program on a store without interruption. -/
def StateProgram.run {σ α : Type} (store : StateStore σ) : StateProgram α → σ → σ × α
  | .done result, state => (state, result)
  | .get key next, state => (next (store.get state key)).run store state
  | .set key value next, state =>
    let (state, outcome) := store.set state key value
    (next outcome).run store state

/-- Makes the next request of a program, if there is one, and leaves what remains of the program. -/
def StateProgram.advance {σ α : Type} (store : StateStore σ) :
    StateProgram α → σ → σ × StateProgram α
  | .done result, state => (state, .done result)
  | .get key next, state => (state, next (store.get state key))
  | .set key value next, state =>
    let (state, outcome) := store.set state key value
    (state, next outcome)

/-- A program that is not interrupted after its next request goes on as if it had been run. -/
theorem StateProgram.run_advance {σ α : Type} (store : StateStore σ) (program : StateProgram α)
    (state : σ) : ((program.advance store state).2).run store (program.advance store state).1
      = program.run store state := by
  cases program with
  | done result => rfl
  | get key next => rfl
  | set key value next => rfl

/-! ## In memory -/

namespace MemoryState

def get? (values : SortedMap String) (key : String) : Option String :=
  values.get? (State.normalizeKey key)

/-- The values with another one for a key. -/
def set (values : SortedMap String) (key value : String) : SortedMap String :=
  values.insert (State.normalizeKey key) value

/-- The store held in memory; it never fails. -/
def store : StateStore (SortedMap String) where
  get values key := .ok (get? values key)
  set values key value := (set values key value, .ok ())

end MemoryState

/-! ## Requests, one after another

Whoever makes them is left open, so the requests of several programs may be among them. -/

inductive StateCall where
  | get (key : String)
  | set (key value : String)

/-- What a store replies to a request. -/
inductive StateReply where
  | value (result : Except StateError (Option String))
  | done (result : Except StateError Unit)

def StateReply.isOk : StateReply → Bool
  | .value result => result.toBool
  | .done result => result.toBool

variable {σ : Type}

def StateStore.serve (store : StateStore σ) (state : σ) : StateCall → σ × StateReply
  | .get key => (state, .value (store.get state key))
  | .set key value =>
    let (state, outcome) := store.set state key value
    (state, .done outcome)

def StateStore.serveAll (store : StateStore σ) (state : σ) (calls : List StateCall) : σ :=
  calls.foldl (fun state call => (store.serve state call).1) state

end BootTrust
