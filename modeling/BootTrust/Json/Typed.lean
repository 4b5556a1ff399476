import BootTrust.Json.Reader
/-
Readers for values of which the type is known beforehand: a text, a flag, a whole number, a list or
a map of texts. Each takes only what is of its type and rejects everything else with the same words,
"invalid type", what was found, and what was expected.

What was found is read first where it is one piece, so the place of the fault is behind it; a
bracket is not entered, so its place is in front of it.
-/

set_option autoImplicit false

namespace BootTrust.Json

/-! ## What is of another type -/

/-- The fault of a value that is not `expected`. -/
def mismatch (expected : String) (text : Bytes) : Fault :=
  let reject (found : Found) (rest : Bytes) : Fault := .here (.wrongType found expected) rest
  match skipBlanks text with
  | [] => .on .endInValue []
  | b :: rest =>
    if b = openArray then reject .array (b :: rest)
    else if b = openObject then reject .object (b :: rest)
    else
      -- no bracket may be opened, so nothing but one piece can come out
      match document 0 (b :: rest) with
      | .error e => e
      | .ok (.null, rest) => reject .null rest
      | .ok (.bool v, rest) => reject (.bool v) rest
      | .ok (.number n, rest) => reject (.number n) rest
      | .ok (.string s, rest) => reject (.string s) rest
      | .ok (.array _, rest) => reject .array rest
      | .ok (.object _, rest) => reject .object rest

/-! ## One piece -/

/-- A string; `expected` names what it stands for. -/
def stringAs (expected : String) : Reader String := fun text =>
  match skipBlanks text with
  | [] => .error (.on .endInValue [])
  | b :: rest => if b = quoteByte then string rest else .error (mismatch expected (b :: rest))

def text : Reader String :=
  stringAs "a string"

def pathText : Reader String :=
  stringAs "path string"

/-- `null`, or what `reader` takes. -/
def orNull {α : Type} (reader : Reader α) : Reader (Option α) := fun text =>
  match skipBlanks text with
  | [] => .error (.on .endInValue [])
  | b :: rest =>
    if b = 0x6E then do
      let rest ← word (Utf8.encode "ull") rest
      return (none, rest)
    else do
      let (a, rest) ← reader (b :: rest)
      return (some a, rest)

def flag : Reader Bool := fun text =>
  match skipBlanks text with
  | [] => .error (.on .endInValue [])
  | b :: rest =>
    if b = 0x74 then do
      let rest ← word (Utf8.encode "rue") rest
      return (true, rest)
    else if b = 0x66 then do
      let rest ← word (Utf8.encode "alse") rest
      return (false, rest)
    else .error (mismatch "a boolean" (b :: rest))

/-- The least and the greatest value of a kind of whole number, and its name. -/
structure IntegerKind where
  least : Int
  greatest : Int
  name : String

/-- Whole numbers of 64 bits without a sign. -/
def unsigned64 : IntegerKind := ⟨0, 0xFFFFFFFFFFFFFFFF, "u64"⟩

/-- Whole numbers of 64 bits with a sign. -/
def signed64 : IntegerKind := ⟨-0x8000000000000000, 0x7FFFFFFFFFFFFFFF, "i64"⟩

/-- A number that has to be a whole number of some kind; `rest` is what follows it. -/
def integerOf (kind : IntegerKind) (n : Number) (rest : Bytes) : Except Fault (Int × Bytes) :=
  match n with
  | .integer i inRange =>
    if kind.least ≤ i ∧ i ≤ kind.greatest then .ok (i, rest)
    else .error (.here (.wrongValue (.integer i inRange) kind.name) rest)
  | .real x => .error (.here (.wrongType (.number (.real x)) kind.name) rest)

/-- A whole number of some kind. -/
def integerAs (kind : IntegerKind) : Reader Int := fun text =>
  match skipBlanks text with
  | [] => .error (.on .endInValue [])
  | b :: rest =>
    if b = minusByte then do
      let (n, rest) ← number false rest
      integerOf kind n rest
    else if isDigit b then do
      let (n, rest) ← number true (b :: rest)
      integerOf kind n rest
    else .error (mismatch kind.name (b :: rest))

/-! ## Brackets of texts -/

def textList : Reader (List String) := fun source =>
  match skipBlanks source with
  | [] => .error (.on .endInValue [])
  | b :: rest =>
    if b = openArray then do
      let step (texts : List String) (rest : Bytes) : Except Fault (List String × Bytes) := do
        let (s, rest) ← text rest
        return (s :: texts, rest)
      let (texts, rest) ← items step [] rest
      return (texts.reverse, rest)
    else .error (mismatch "a sequence" (b :: rest))

/-- Reads a member of a map of texts, from behind its name. -/
def textMember (map : SortedMap String) (name : String) (rest : Bytes) :
    Except Stop (SortedMap String × Bytes) := do
  let rest ← stopped (colon rest)
  let (s, rest) ← stopped (text rest)
  return (map.insert name s, rest)

/-- A map from texts to texts; of several members with one name the last counts. -/
def textMap : Reader (SortedMap String) := fun source =>
  match skipBlanks source with
  | [] => .error (.on .endInValue [])
  | b :: rest =>
    if b = openObject then
      match members textMember .empty rest with
      | .error stop => .error (stop.toFault afterClosingObject)
      | .ok (map, rest) => .ok (map, rest)
    else .error (mismatch "a map" (b :: rest))

end BootTrust.Json
