import BootTrust.Json.Loop
/-
Passing over a value that nobody asked for. Only its form is checked: brackets, commas, colons,
words, digits and escapes have to be right, but a string need not be a text, surrogates need not be
paired, no number is too large, and brackets may be nested to any depth.
-/

set_option autoImplicit false

namespace BootTrust.Json

/-! ## Strings -/

/-- Passes over what follows a backslash. -/
def skipEscape : Bytes → Except Fault Bytes
  | [] => .error (.here .endInString [])
  | b :: rest =>
    if (letterEscape? b).isSome then .ok rest
    else if b = 0x75 then (·.2) <$> hexEscape rest
    else .error (.here .invalidEscape rest)

theorem skipEscape_length {rest left : Bytes} (h : skipEscape rest = .ok left) :
    left.length < rest.length := by
  cases rest with
  | nil => cases h
  | cons b rest =>
    simp only [skipEscape] at h
    split at h
    · cases h; simp
    split at h
    · cases h₁ : hexEscape rest with
      | error e => rw [h₁] at h; cases h
      | ok r =>
        obtain ⟨n, left'⟩ := r
        rw [h₁] at h
        cases h
        have := hexEscape_length h₁
        simp only [List.length_cons]
        omega
    · cases h

/-- Passes over a string, from behind its opening quotation mark. -/
def skipString : Bytes → Except Fault Bytes
  | [] => .error (.here .endInString [])
  | b :: rest =>
    if b = quoteByte then .ok rest
    else if b = backslashByte then
      match h : skipEscape rest with
      | .error fault => .error fault
      | .ok left =>
        have := skipEscape_length h
        skipString left
    else if b < 0x20 then .error (.here .bareControl (b :: rest))
    else skipString rest
termination_by s => s.length

/-! ## Numbers -/

/-- Passes over an exponent, from behind its letter. -/
def skipExponent (rest : Bytes) : Except Fault Bytes :=
  let rest :=
    match rest with
    | b :: more => if b = 0x2B || b = minusByte then more else rest
    | [] => []
  match rest with
  | [] => .error (.here .invalidNumber [])
  | b :: rest => if isDigit b then .ok (skipDigits 0 rest).2 else .error (.here .invalidNumber rest)

/-- Passes over an exponent, if there is one. -/
def skipExponent? : Bytes → Except Fault Bytes
  | [] => .ok []
  | b :: rest => if isExponentLetter b then skipExponent rest else .ok (b :: rest)

/-- Passes over what follows the whole part of a number. -/
def skipAfterWhole : Bytes → Except Fault Bytes
  | [] => .ok []
  | b :: rest =>
    if b = pointByte then
      match skipDigits 0 rest with
      | (0, rest) => .error (.on .invalidNumber rest)
      | (_, rest) => skipExponent? rest
    else skipExponent? (b :: rest)

/-- Passes over a number, from behind its minus sign if it has one. -/
def skipNumber : Bytes → Except Fault Bytes
  | [] => .error (.here .invalidNumber [])
  | b :: rest =>
    if !isDigit b then .error (.here .invalidNumber rest)
    else if b = 0x30 then
      match rest with
      | c :: more =>
        if isDigit c then .error (.on .invalidNumber (c :: more)) else skipAfterWhole (c :: more)
      | [] => .ok []
    else skipAfterWhole (skipDigits 0 rest).2

/-! ## Values -/

/-- Passes over a name and its colon, from the start of the name on. -/
def skipName (rest : Bytes) : Except Fault Bytes :=
  match skipBlanks rest with
  | [] => .error (.on .endInObject [])
  | b :: rest =>
    if b = quoteByte then do colon (← skipString rest)
    else .error (.on .nameNotString (b :: rest))

inductive Bracket where
  | array
  | object
  deriving DecidableEq

namespace Bracket

def close : Bracket → UInt8
  | .array => closeArray
  | .object => closeObject

/-- The cause of a fault when the text ends in the bracket. -/
def ending : Bracket → Cause
  | .array => .endInArray
  | .object => .endInObject

/-- The cause of a fault when neither a comma nor the end follows an item. -/
def noComma : Bracket → Cause
  | .array => .expectedCommaOrEndOfArray
  | .object => .expectedCommaOrEndOfObject

/-- Passes over what stands before the value of an item. -/
def skipHead : Bracket → Bytes → Except Fault Bytes
  | .array, rest => .ok rest
  | .object, rest => skipName rest

end Bracket

/-- What a value begins with. -/
inductive Opening where
  /-- The value is one piece; these are the bytes behind it. -/
  | whole (rest : Bytes)
  /-- The value is a bracket; these are the bytes inside it. -/
  | bracket (b : Bracket) (rest : Bytes)

/-- Passes over a value of one piece, or over an opening bracket. -/
def skipOpening (text : Bytes) : Except Fault Opening :=
  match skipBlanks text with
  | [] => .error (.on .endInValue [])
  | b :: rest =>
    if b = 0x6E then .whole <$> word (Utf8.encode "ull") rest
    else if b = 0x74 then .whole <$> word (Utf8.encode "rue") rest
    else if b = 0x66 then .whole <$> word (Utf8.encode "alse") rest
    else if b = minusByte then .whole <$> skipNumber rest
    else if isDigit b then .whole <$> skipNumber (b :: rest)
    else if b = quoteByte then .whole <$> skipString rest
    else if b = openArray then .ok (.bracket .array rest)
    else if b = openObject then .ok (.bracket .object rest)
    else .error (.on .expectedValue (b :: rest))

mutual

/-- Passes over a value. The bound counts the values and items still to come; each takes at least
one byte, so the length of the text is enough. -/
def skipBounded : (bound : Nat) → Bytes → Except Fault Bytes
  | 0, _ => .error (.on .endInValue [])
  | bound + 1, text => do
    match ← skipOpening text with
    | .whole rest => return rest
    | .bracket b rest =>
      match skipBlanks rest with
      | [] => .error (.on b.ending [])
      | c :: rest => if c = b.close then return rest else skipItems bound b (c :: rest)

/-- Passes over the items of a bracket, from the start of one on. -/
def skipItems : (bound : Nat) → Bracket → Bytes → Except Fault Bytes
  | 0, b, _ => .error (.on b.ending [])
  | bound + 1, b, text => do
    let rest ← skipBounded bound (← b.skipHead text)
    match skipBlanks rest with
    | [] => .error (.on b.ending [])
    | c :: rest =>
      if c = b.close then return rest
      else if c = commaByte then skipItems bound b rest
      else .error (.on b.noComma (c :: rest))

end

def skipValue (text : Bytes) : Except Fault Bytes :=
  skipBounded (2 * text.length + 1) text

end BootTrust.Json
