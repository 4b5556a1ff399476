import BootTrust.Json.Scan
/-
Reading what stands between brackets. The loops know commas, names and closing brackets; what is
done with an item or a member is a parameter, a step that takes a state further. A document collects
its members, a record puts each one in its place, and both run in the same loop.

A loop is bounded by the number of bytes it is given. Every round takes at least one byte, so
the bound is reached only when no byte is left, and the fault it then reports is the one that
the end of the text would cause.
-/

set_option autoImplicit false

namespace BootTrust.Json

variable {σ : Type}

/-- Why a loop stops early. -/
inductive Stop where
  /-- The text is wrong at a known place. -/
  | fault (found : Fault)
  /-- The text is right so far, but not what the record wants; `rest` is what is still unread. -/
  | complaint (cause : Cause) (rest : Bytes)

/-- Lets a fault stop a loop. -/
def stopped {α : Type} : Except Fault α → Except Stop α
  | .ok a => .ok a
  | .error found => .error (.fault found)

/-! ## Arrays -/

/-- Behind a comma in an array: the next item has to begin. -/
def nextItem (rest : Bytes) : Except Fault Bytes :=
  match skipBlanks rest with
  | [] => .error (.on .endInValue [])
  | b :: rest => if b = closeArray then .error (.on .trailingComma (b :: rest)) else .ok (b :: rest)

/-- Items up to the closing bracket, from the start of one on. -/
def itemLoop (step : σ → Bytes → Except Fault (σ × Bytes)) :
    (bound : Nat) → σ → Bytes → Except Fault (σ × Bytes)
  | 0, _, _ => .error (.on .endInArray [])
  | bound + 1, state, rest => do
    let (state, rest) ← step state rest
    match skipBlanks rest with
    | [] => .error (.on .endInArray [])
    | b :: rest =>
      if b = closeArray then return (state, rest)
      else if b = commaByte then itemLoop step bound state (← nextItem rest)
      else .error (.on .expectedCommaOrEndOfArray (b :: rest))

/-- An array, from behind its opening bracket. -/
def items (step : σ → Bytes → Except Fault (σ × Bytes)) (state : σ) (rest : Bytes) :
    Except Fault (σ × Bytes) :=
  match skipBlanks rest with
  | [] => .error (.on .endInArray [])
  | b :: rest =>
    if b = closeArray then .ok (state, rest)
    else itemLoop step (rest.length + 1) state (b :: rest)

/-! ## Objects -/

/-- The colon behind a name. -/
def colon (rest : Bytes) : Except Fault Bytes :=
  match skipBlanks rest with
  | [] => .error (.on .endInObject [])
  | b :: rest => if b = colonByte then .ok rest else .error (.on .expectedColon (b :: rest))

/-- Behind a comma in an object: the next name has to begin. The bytes behind its quotation mark. -/
def nextName (rest : Bytes) : Except Fault Bytes :=
  match skipBlanks rest with
  | [] => .error (.on .endInValue [])
  | b :: rest =>
    if b = quoteByte then .ok rest
    else if b = closeObject then .error (.on .trailingComma (b :: rest))
    else .error (.on .nameNotString (b :: rest))

/-- Members up to the closing brace, from behind the quotation mark of a name on. The step gets the
name and what stands behind it, the colon included. -/
def memberLoop (step : σ → String → Bytes → Except Stop (σ × Bytes)) :
    (bound : Nat) → σ → Bytes → Except Stop (σ × Bytes)
  | 0, _, _ => .error (.fault (.on .endInObject []))
  | bound + 1, state, rest => do
    let (name, rest) ← stopped (string rest)
    let (state, rest) ← step state name rest
    match skipBlanks rest with
    | [] => .error (.fault (.on .endInObject []))
    | b :: rest =>
      if b = closeObject then return (state, rest)
      else if b = commaByte then memberLoop step bound state (← stopped (nextName rest))
      else .error (.fault (.on .expectedCommaOrEndOfObject (b :: rest)))

/-- An object, from behind its opening brace. -/
def members (step : σ → String → Bytes → Except Stop (σ × Bytes)) (state : σ) (rest : Bytes) :
    Except Stop (σ × Bytes) :=
  match skipBlanks rest with
  | [] => .error (.fault (.on .endInObject []))
  | b :: rest =>
    if b = closeObject then .ok (state, rest)
    else if b = quoteByte then memberLoop step (rest.length + 1) state rest
    else .error (.fault (.on .nameNotString (b :: rest)))

/-! ## Where a complaint is placed

A reader that has a complaint still tries to take the closing bracket, and places the complaint
behind what it could take.
-/

/-- The bytes behind an attempt to close an object. -/
def afterClosingObject (rest : Bytes) : Bytes :=
  match skipBlanks rest with
  | [] => []
  | b :: rest => if b = closeObject then rest else b :: rest

/-- The bytes behind an attempt to close an array; a comma in the way is taken too. -/
def afterClosingArray (rest : Bytes) : Bytes :=
  match skipBlanks rest with
  | [] => []
  | b :: rest =>
    if b = closeArray then rest else if b = commaByte then skipBlanks rest else b :: rest

/-- The fault that ends the reading of a bracketed part, given where a complaint is placed. -/
def Stop.toFault (after : Bytes → Bytes) : Stop → Fault
  | .fault found => found
  | .complaint cause rest => .here cause (after rest)

end BootTrust.Json
