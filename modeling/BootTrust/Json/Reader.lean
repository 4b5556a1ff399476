import BootTrust.Json.Document
import BootTrust.Json.Loop
/-
Reading documents. `document` gives back what is written, members in their order and repeated names
included; what it means is a question for `Document.normal`.

Brackets may be nested to a fixed depth. The depth still allowed is the structural argument of the
recursion, so the reader is total without any further bound.
-/

set_option autoImplicit false

namespace BootTrust.Json

/-- How many brackets may be open around a value when the outermost one has been opened. -/
def greatestDepth : Nat := 127

/-- A document in which at most `depth` brackets may be open at a time. -/
def document : (depth : Nat) → Reader Document
  | depth, text =>
    match skipBlanks text with
    | [] => .error (.on .endInValue [])
    | b :: rest =>
      if b = 0x6E then do
        let rest ← word (Utf8.encode "ull") rest
        return (.null, rest)
      else if b = 0x74 then do
        let rest ← word (Utf8.encode "rue") rest
        return (.bool true, rest)
      else if b = 0x66 then do
        let rest ← word (Utf8.encode "alse") rest
        return (.bool false, rest)
      else if b = minusByte then do
        let (n, rest) ← number false rest
        return (.number n, rest)
      else if isDigit b then do
        let (n, rest) ← number true (b :: rest)
        return (.number n, rest)
      else if b = quoteByte then do
        let (s, rest) ← string rest
        return (.string s, rest)
      else if b = openArray then
        match depth with
        | 0 => .error (.on .nestedTooDeeply (b :: rest))
        | depth + 1 => do
          let step (ds : List Document) (rest : Bytes) : Except Fault (List Document × Bytes) := do
            let (d, rest) ← document depth rest
            return (d :: ds, rest)
          let (ds, rest) ← items step [] rest
          return (.array ds.reverse, rest)
      else if b = openObject then
        match depth with
        | 0 => .error (.on .nestedTooDeeply (b :: rest))
        | depth + 1 =>
          let step (ms : List (String × Document)) (name : String) (rest : Bytes) :
              Except Stop (List (String × Document) × Bytes) := do
            let rest ← stopped (colon rest)
            let (d, rest) ← stopped (document depth rest)
            return ((name, d) :: ms, rest)
          match members step [] rest with
          | .error stop => .error (stop.toFault afterClosingObject)
          | .ok (ms, rest) => .ok (.object ms.reverse, rest)
      else .error (.on .expectedValue (b :: rest))

/-- Reads all of a text: only blanks may follow what `reader` takes. -/
def readAll {α : Type} (reader : Reader α) (text : Bytes) : Except ReadError α :=
  match reader text with
  | .error fault => .error (.ofFault text fault)
  | .ok (a, rest) =>
    match skipBlanks rest with
    | [] => .ok a
    | b :: rest => .error (.ofFault text (.on .trailingCharacters (b :: rest)))

/-- A value that stands for itself in a larger document. -/
def value (depth : Nat) : Reader Value := fun text => do
  let (d, rest) ← document depth text
  return (.ofDocument d, rest)

def Value.parse (text : Bytes) : Except ReadError Value :=
  readAll (value greatestDepth) text

end BootTrust.Json
