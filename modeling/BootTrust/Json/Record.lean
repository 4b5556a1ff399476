import BootTrust.Json.Skip
import BootTrust.Json.Typed
/-
Records: objects of which the members are known. A `Shape` lists the members; reading fills a draft,
one member after the other in whatever order they are written, and the draft has to be complete in
the end. A member may be written once only. Members with other names are passed over.

A record may also be written as an array of its members in their order; the last ones may then be
left out if they are optional.
-/

set_option autoImplicit false

namespace BootTrust.Json

variable {δ α β : Type}

/-- A member of a record with drafts of type `δ`. -/
structure Slot (δ : Type) where
  name : String
  /-- Whether a draft has the member already. -/
  filled : δ → Bool
  /-- Reads the value of the member into a draft. -/
  read : δ → Reader δ
  /-- Whether a record is complete without the member. -/
  optional : Bool

/-- A member that a draft keeps in a place of its own. -/
def Slot.of (name : String) (optional : Bool) (reader : Reader β) (get : δ → Option β)
    (put : δ → β → δ) : Slot δ where
  name := name
  filled draft := (get draft).isSome
  read draft text := do
    let (b, rest) ← reader text
    return (put draft b, rest)
  optional := optional

/-- What a record consists of. -/
structure Shape (δ α : Type) where
  /-- The name of the record in messages. -/
  name : String
  slots : List (Slot δ)
  /-- The draft before anything is read. -/
  blank : δ
  /-- The record that a draft amounts to, or the name of a member that it lacks. -/
  finish : δ → Except String α

namespace Shape

/-- The member called `name`. -/
def slot? (shape : Shape δ α) (name : String) : Option (Slot δ) :=
  shape.slots.find? (·.name = name)

/-- What a record written as an array has to be, in words. -/
def lengthText (shape : Shape δ α) : String :=
  shape.name ++ " with " ++ Decimal.naturalText shape.slots.length
    ++ if shape.slots.length = 1 then " element" else " elements"

/-- Reads one member, from behind its name. -/
def readMember (shape : Shape δ α) (draft : δ) (name : String) (rest : Bytes) :
    Except Stop (δ × Bytes) :=
  match shape.slot? name with
  | none => stopped do
    let rest ← skipValue (← colon rest)
    return (draft, rest)
  | some slot =>
    if slot.filled draft then .error (.complaint (.duplicateMember name) rest)
    else stopped do slot.read draft (← colon rest)

/-- Reads the members of a record written as an array up to its closing bracket, which is not taken.
`index` counts the members that have been read. -/
def readItems (shape : Shape δ α) : (index : Nat) → List (Slot δ) → δ → Bytes →
    Except Stop (δ × Bytes)
  | _, [], draft, rest => .ok (draft, rest)
  | index, slot :: slots, draft, rest =>
    match skipBlanks rest with
    | [] => .error (.fault (.on .endInArray []))
    | b :: rest =>
      if b = closeArray then
        if slot.optional then readItems shape (index + 1) slots draft (b :: rest)
        else .error (.complaint (.wrongLength index shape.lengthText) (b :: rest))
      else do
        let rest ←
          if index = 0 then pure (b :: rest)
          else if b = commaByte then stopped (nextItem rest)
          else .error (.fault (.on .expectedCommaOrEndOfArray (b :: rest)))
        let (draft, rest) ← stopped (slot.read draft rest)
        readItems shape (index + 1) slots draft rest

/-- Takes the closing bracket of a record written as an array. -/
def closeItems (rest : Bytes) : Except Fault Bytes :=
  match skipBlanks rest with
  | [] => .error (.on .endInArray [])
  | b :: rest =>
    if b = closeArray then .ok rest
    else if b = commaByte then
      match skipBlanks rest with
      | [] => .error (.on .trailingCharacters [])
      | c :: rest =>
        if c = closeArray then .error (.on .trailingComma (c :: rest))
        else .error (.on .trailingCharacters (c :: rest))
    else .error (.on .trailingCharacters (b :: rest))

/-- The record of a complete draft; `rest` is what follows it. -/
def complete (shape : Shape δ α) (draft : δ) (rest : Bytes) : Except Fault (α × Bytes) :=
  match shape.finish draft with
  | .ok a => .ok (a, rest)
  | .error name => .error (.here (.missingMember name) rest)

/-- Reads the members of a record, which may turn out not to be complete. -/
def readDraft (shape : Shape δ α) : Reader δ := fun text =>
  match skipBlanks text with
  | [] => .error (.on .endInValue [])
  | b :: rest =>
    if b = openObject then
      match members shape.readMember shape.blank rest with
      | .error stop => .error (stop.toFault afterClosingObject)
      | .ok (draft, rest) => .ok (draft, rest)
    else if b = openArray then
      match shape.readItems 0 shape.slots shape.blank rest with
      | .error stop => .error (stop.toFault afterClosingArray)
      | .ok (draft, rest) => do
        let rest ← closeItems rest
        return (draft, rest)
    else .error (mismatch shape.name (b :: rest))

def read (shape : Shape δ α) : Reader α := fun text => do
  let (draft, rest) ← shape.readDraft text
  shape.complete draft rest

/-- The record that a whole text is. -/
def parse (shape : Shape δ α) (text : Bytes) : Except ReadError α :=
  readAll shape.read text

/-! ## Drafts of a text -/

/-- A text is a record if and only if it can be read into a draft that is complete. -/
theorem parse_eq_ok_iff (shape : Shape δ α) {text : Bytes} {a : α} :
    shape.parse text = .ok a
      ↔ ∃ draft, readAll shape.readDraft text = .ok draft ∧ shape.finish draft = .ok a := by
  rw [parse, readAll, readAll, read]
  rcases shape.readDraft text with fault | ⟨draft, rest⟩
  · simp [bind, Except.bind]
  -- the draft is complete or not, and something follows it or not
  · simp only [bind, Except.bind, complete]
    rcases hfinish : shape.finish draft with name | a'
    · rcases hrest : skipBlanks rest with _ | ⟨b, rest'⟩
      · simp [hfinish]
      · simp
    · rcases hrest : skipBlanks rest with _ | ⟨b, rest'⟩
      · simp [hrest, hfinish]
      · simp [hrest]

end Shape

/-- How deeply brackets may be nested in a member of a record; the record itself is one of the
brackets that a document may have open. -/
def memberDepth : Nat := greatestDepth - 1

end BootTrust.Json
