import BootTrust.Json.Fault
import BootTrust.Json.Lexical
/-
Reading the smallest parts of a document: blanks, words, strings and numbers. Each reader takes the
bytes from its part on and gives back what it read and the bytes behind it, or a fault.

The place of a fault is part of what a reader promises. Where a byte was looked at but not taken,
the fault lies on that byte; where it was taken, the fault lies behind it.
-/

set_option autoImplicit false

namespace BootTrust.Json

/-- Reads something from the front of some bytes. -/
abbrev Reader (α : Type) := Bytes → Except Fault (α × Bytes)

/-- The bytes behind the blanks at the front. -/
def skipBlanks : Bytes → Bytes
  | [] => []
  | b :: rest => if isBlankByte b then skipBlanks rest else b :: rest

/-- Takes the letters of a word one by one. -/
def word : (letters : Bytes) → Bytes → Except Fault Bytes
  | [], rest => .ok rest
  | _ :: _, [] => .error (.here .endInValue [])
  | l :: letters, b :: rest =>
    if b = l then word letters rest else .error (.here .expectedWord rest)

/-! ## Strings -/

/-- The number of four hexadecimal digits. -/
def hexFour? (a b c d : UInt8) : Option Nat := do
  return (((← hexValue? a) * 16 + (← hexValue? b)) * 16 + (← hexValue? c)) * 16 + (← hexValue? d)

/-- Takes four hexadecimal digits. -/
def hexEscape : Reader Nat
  | a :: b :: c :: d :: rest =>
    match hexFour? a b c d with
    | some n => .ok (n, rest)
    | none => .error (.here .invalidEscape rest)
  | _ => .error (.here .endInString [])

/-- Whether a number is the first half of a surrogate pair. -/
def isHighSurrogate (n : Nat) : Bool := 0xD800 ≤ n && n ≤ 0xDBFF

/-- Whether a number is the second half of a surrogate pair. -/
def isLowSurrogate (n : Nat) : Bool := 0xDC00 ≤ n && n ≤ 0xDFFF

/-- The number of the character that two halves of a surrogate pair make. -/
def pairNumber (high low : Nat) : Nat :=
  (high - 0xD800) * 0x400 + (low - 0xDC00) + 0x10000

/-- The bytes of the character with a number. -/
def charBytes (n : Nat) : Bytes :=
  String.utf8EncodeChar (Char.ofNat n)

/-- What follows `\u`: the number of a character, or two halves of a surrogate pair. -/
def unicodeEscape (rest : Bytes) : Except Fault (Bytes × Bytes) := do
  let (n, rest) ← hexEscape rest
  if isLowSurrogate n then .error (.here .loneSurrogate rest)
  else if !isHighSurrogate n then return (charBytes n, rest)
  else
    match rest with
    | [] => .error (.here .endInString [])
    | b :: rest =>
      if b ≠ backslashByte then .error (.here .cutSurrogatePair rest)
      else
        match rest with
        | [] => .error (.here .endInString [])
        | u :: rest =>
          if u ≠ 0x75 then .error (.here .cutSurrogatePair rest)
          else
            let (m, rest) ← hexEscape rest
            if isLowSurrogate m then
              return (charBytes (pairNumber n m), rest)
            else .error (.here .loneSurrogate rest)

/-- The byte that an escape of one letter stands for. -/
def letterEscape? (b : UInt8) : Option UInt8 :=
  if b = quoteByte || b = backslashByte || b = 0x2F then some b
  else if b = 0x62 then some 0x08
  else if b = 0x66 then some 0x0C
  else if b = 0x6E then some 0x0A
  else if b = 0x72 then some 0x0D
  else if b = 0x74 then some 0x09
  else none

/-- What follows a backslash. -/
def escape : Bytes → Except Fault (Bytes × Bytes)
  | [] => .error (.here .endInString [])
  | b :: rest =>
    match letterEscape? b with
    | some c => .ok ([c], rest)
    | none => if b = 0x75 then unicodeEscape rest else .error (.here .invalidEscape rest)

theorem hexEscape_length {rest left : Bytes} {n : Nat} (h : hexEscape rest = .ok (n, left)) :
    left.length < rest.length := by
  unfold hexEscape at h
  split at h
  · split at h
    · cases h; simp only [List.length_cons]; omega
    · cases h
  · cases h

theorem unicodeEscape_length {rest left bytes : Bytes}
    (h : unicodeEscape rest = .ok (bytes, left)) : left.length < rest.length := by
  unfold unicodeEscape at h
  cases h₁ : hexEscape rest with
  | error e => rw [h₁] at h; cases h
  | ok r =>
    obtain ⟨n, rest₁⟩ := r
    have l₁ := hexEscape_length h₁
    simp only [h₁, bind, Except.bind] at h
    split at h
    · cases h
    split at h
    · cases h; exact l₁
    split at h
    · cases h
    next b rest₂ =>
      split at h
      · cases h
      split at h
      · cases h
      next u rest₃ =>
        split at h
        · cases h
        cases h₂ : hexEscape rest₃ with
        | error e => rw [h₂] at h; cases h
        | ok r =>
          obtain ⟨m, rest₄⟩ := r
          have l₂ := hexEscape_length h₂
          simp only [h₂] at h
          simp only [List.length_cons] at l₁
          split at h
          · simp only [pure, Except.pure, Except.ok.injEq, Prod.mk.injEq] at h
            rw [← h.2]
            omega
          · cases h

/-- An escape takes at least one byte. -/
theorem escape_length {rest left bytes : Bytes} (h : escape rest = .ok (bytes, left)) :
    left.length < rest.length := by
  cases rest with
  | nil => cases h
  | cons b rest =>
    simp only [escape] at h
    split at h
    · cases h; simp
    · split at h
      · have := unicodeEscape_length h
        simp only [List.length_cons]
        omega
      · cases h

/-- The bytes up to the closing quotation mark, with the escapes replaced by what they stand for. -/
def stringContent : Reader Bytes
  | [] => .error (.here .endInString [])
  | b :: rest =>
    if b = quoteByte then .ok ([], rest)
    else if b = backslashByte then
      match h : escape rest with
      | .error fault => .error fault
      | .ok (bytes, left) => do
        have := escape_length h
        let (more, left) ← stringContent left
        return (bytes ++ more, left)
    else if b < 0x20 then .error (.here .bareControl rest)
    else do
      let (more, left) ← stringContent rest
      return (b :: more, left)
termination_by s => s.length

/-- A string, from behind its opening quotation mark. Its place counts from the closing one: a byte
that is no text lies as far before it as it lies before the end of the content. -/
def string (rest : Bytes) : Except Fault (String × Bytes) := do
  let (content, left) ← stringContent rest
  match Utf8.decode? content with
  | some s => return (s, left)
  | none => .error ⟨.invalidText, left.length + (content.length - Utf8.validLength content)⟩

/-! ## Numbers -/

/-- The first number that no longer fits 64 bits. -/
def wordLimit : Nat := 0x10000000000000000

/-- Reads digits behind the number `n`: the number, how many digits were read, and whether the
reading stopped at a digit because the number would not fit 64 bits with it. -/
def boundedDigits (n count : Nat) : Bytes → (Nat × Nat) × Bool × Bytes
  | [] => ((n, count), false, [])
  | b :: rest =>
    if !isDigit b then ((n, count), false, b :: rest)
    else if wordLimit ≤ n * 10 + digitValue b then ((n, count), true, b :: rest)
    else boundedDigits (n * 10 + digitValue b) (count + 1) rest

/-- Skips digits and counts them. -/
def skipDigits (count : Nat) : Bytes → Nat × Bytes
  | [] => (count, [])
  | b :: rest => if isDigit b then skipDigits (count + 1) rest else (count, b :: rest)

/-- A power of ten as a floating point number. -/
def powerOfTen (k : Nat) : Float :=
  Float.ofScientific 1 false k

/-- The greatest power of ten that is a floating point number. -/
def greatestPower : Nat := 308

/-- `f * 10 ^ e` by one multiplication or, after steps of the greatest power, one division; `none`
when the product is beyond every floating point number. -/
def scale? (f : Float) (e : Int) : Option Float :=
  if e.natAbs ≤ greatestPower then
    if 0 ≤ e then
      let g := f * powerOfTen e.toNat
      if g.isInf then none else some g
    else some (f / powerOfTen e.natAbs)
  else if f == 0 then some f
  else if 0 ≤ e then none
  else scale? (f / powerOfTen greatestPower) (e + greatestPower)
termination_by (-e).toNat
decreasing_by simp only [greatestPower] at *; omega

/-- A number in the course of being read: its sign, the digits without the point, and the power of
ten that the point has cost so far. -/
structure Scaled where
  positive : Bool
  significand : Nat
  power : Int

/-- The floating point number, at the place where `rest` begins. -/
def Scaled.toReal (x : Scaled) (rest : Bytes) : Except Fault (Number × Bytes) :=
  match scale? (UInt64.ofNat x.significand).toFloat x.power with
  | some f => .ok (.real (if x.positive then f else -f), rest)
  | none => .error (.here .numberOutOfRange rest)

/-- The greatest exponent that is read exactly; a greater one decides by its sign alone. -/
def greatestExponent : Nat := 0x7FFFFFFF

/-- What exponent digits `n` followed by `rest` amount to, or the rest at which they grow too
large. -/
def exponentDigits (n : Nat) : Bytes → Except Bytes (Nat × Bytes)
  | [] => .ok (n, [])
  | b :: rest =>
    if !isDigit b then .ok (n, b :: rest)
    else if greatestExponent < n * 10 + digitValue b then .error rest
    else exponentDigits (n * 10 + digitValue b) rest

/-- Reads an exponent, from behind its letter. -/
def Scaled.readExponent (x : Scaled) (rest : Bytes) : Except Fault (Number × Bytes) :=
  let (upwards, rest) : Bool × Bytes :=
    match rest with
    | b :: more =>
      if b = 0x2B then (true, more) else if b = minusByte then (false, more) else (true, rest)
    | [] => (true, [])
  match rest with
  | [] => .error (.here .endInValue [])
  | b :: rest =>
    if !isDigit b then .error (.here .invalidNumber rest)
    else
      match exponentDigits (digitValue b) rest with
      | .ok (e, rest) =>
        { x with power := if upwards then x.power + e else x.power - e }.toReal rest
      | .error rest =>
        if x.significand ≠ 0 && upwards then .error (.here .numberOutOfRange rest)
        else .ok (.real (if x.positive then 0.0 else -0.0), (skipDigits 0 rest).2)

def isExponentLetter (b : UInt8) : Bool :=
  b = 0x65 || b = 0x45

/-- Reads the exponent, if there is one. -/
def Scaled.readRest (x : Scaled) : Bytes → Except Fault (Number × Bytes)
  | [] => x.toReal []
  | b :: rest => if isExponentLetter b then x.readExponent rest else x.toReal (b :: rest)

/-- Reads a fraction, from behind the point. Digits that no longer fit 64 bits are skipped. -/
def Scaled.readFraction (x : Scaled) (rest : Bytes) : Except Fault (Number × Bytes) :=
  let ((n, count), full, rest) := boundedDigits x.significand 0 rest
  let y := { x with significand := n, power := x.power - count }
  if full then y.readRest (skipDigits 0 rest).2
  else if count = 0 then
    match rest with
    | [] => .error (.on .endInValue [])
    | b :: rest => .error (.on .invalidNumber (b :: rest))
  else y.readRest rest

/-- The point before a fraction. -/
def pointByte : UInt8 := 0x2E

/-- A whole number, or the floating point number that stands in for it: negative zero and integers
beyond 64 bits are no integers here. -/
def wholeNumber (positive : Bool) (n : Nat) (rest : Bytes) : Except Fault (Number × Bytes) :=
  if positive then
    match Number.ofInt? n with
    | some number => .ok (number, rest)
    | none => Scaled.toReal ⟨positive, n, 0⟩ rest
  else if n = 0 then Scaled.toReal ⟨positive, n, 0⟩ rest
  else
    match Number.ofInt? (-n) with
    | some number => .ok (number, rest)
    | none => Scaled.toReal ⟨positive, n, 0⟩ rest

/-- What follows the whole part `n` of a number. -/
def afterWhole (positive : Bool) (n : Nat) : Bytes → Except Fault (Number × Bytes)
  | [] => wholeNumber positive n []
  | b :: rest =>
    if b = pointByte then Scaled.readFraction ⟨positive, n, 0⟩ rest
    else if isExponentLetter b then Scaled.readExponent ⟨positive, n, 0⟩ rest
    else wholeNumber positive n (b :: rest)

/-- Reads a number, from behind its minus sign if it has one. -/
def number (positive : Bool) : Bytes → Except Fault (Number × Bytes)
  | [] => .error (.here .endInValue [])
  | b :: rest =>
    if !isDigit b then .error (.here .invalidNumber rest)
    else if b = 0x30 then
      match rest with
      | [] => afterWhole positive 0 []
      | c :: rest =>
        if isDigit c then .error (.on .invalidNumber (c :: rest))
        else afterWhole positive 0 (c :: rest)
    else
      let ((n, _), full, rest) := boundedDigits (digitValue b) 1 rest
      if !full then afterWhole positive n rest
      else
        -- the digits that do not fit only raise the power of ten
        let (count, rest) := skipDigits 0 rest
        let x : Scaled := ⟨positive, n, count⟩
        match rest with
        | [] => x.toReal []
        | c :: rest => if c = pointByte then x.readFraction rest else x.readRest (c :: rest)

end BootTrust.Json
