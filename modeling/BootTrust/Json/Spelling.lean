import BootTrust.Json.Number
import BootTrust.Json.Scan
/-
What a JSON text says, apart from any reader. A `Spelling` is a text with all that its writer
was free to choose: the blanks between the parts, the digits of a number, the way in which a
character is escaped, the order of members and names that occur more than once. Its `bytes`
are the text. Its `meaning?` is what the text denotes: numbers are compared by their value,
strings by their characters, and an object is the family of its members, where the last of
several with one name counts.

Every spelling is a JSON text, but not every one has a meaning, since half of a surrogate pair may
be escaped alone and is no character.
-/

set_option autoImplicit false

namespace BootTrust.Json

/-- What a JSON text denotes. -/
inductive Meaning where
  | null
  | bool (b : Bool)
  | number (value : Rat)
  | string (s : String)
  | array (items : List Meaning)
  /-- What each name has as its member, if anything. -/
  | object (member? : String → Option Meaning)

/-! ## Numbers -/

/-- One or more digits. -/
structure Digits where
  first : Fin 10
  more : List (Fin 10)

namespace Digits

def byte (d : Fin 10) : UInt8 :=
  UInt8.ofNat (0x30 + d)

def list (ds : Digits) : List (Fin 10) :=
  ds.first :: ds.more

def bytes (ds : Digits) : Bytes :=
  ds.list.map byte

/-- The number that digits stand for behind the number `n`. -/
def valueFrom (n : Nat) (ds : List (Fin 10)) : Nat :=
  ds.foldl (fun n d => n * 10 + d.val) n

def value (ds : Digits) : Nat :=
  valueFrom 0 ds.list

end Digits

/-- The power of ten at the end of a number. -/
structure Exponent where
  /-- Whether it begins with `E` and not with `e`. -/
  large : Bool
  /-- Its sign, if it has one; `true` is a minus sign. -/
  sign : Option Bool
  digits : Digits

namespace Exponent

def bytes (e : Exponent) : Bytes :=
  (if e.large then 0x45 else 0x65) :: (match e.sign with
    | some true => [minusByte]
    | some false => [0x2B]
    | none => []) ++ e.digits.bytes

def value (e : Exponent) : Int :=
  if e.sign = some true then -(e.digits.value : Int) else e.digits.value

end Exponent

/-- A number as it is written. -/
structure Literal where
  negative : Bool
  whole : Digits
  fraction : Option Digits
  exponent : Option Exponent
  noLeadingZero : whole.first.val = 0 → whole.more = []

namespace Literal

/-- The bytes of the exponent, if there is one. -/
def exponentBytes (l : Literal) : Bytes :=
  match l.exponent with
  | some e => e.bytes
  | none => []

/-- What follows the whole part of a number. -/
def tailBytes (l : Literal) : Bytes :=
  match l.fraction with
  | some ds => pointByte :: (ds.bytes ++ l.exponentBytes)
  | none => l.exponentBytes

def bytes (l : Literal) : Bytes :=
  (if l.negative then [minusByte] else []) ++ (l.whole.bytes ++ l.tailBytes)

/-- The digits behind the point. -/
def fractionList (l : Literal) : List (Fin 10) :=
  match l.fraction with
  | some ds => ds.list
  | none => []

/-- The number that is written, exactly. -/
def value (l : Literal) : Rat :=
  let digits := Digits.valueFrom 0 (l.whole.list ++ l.fractionList)
  let power := (l.exponent.map Exponent.value).getD 0 - l.fractionList.length
  let magnitude := (digits : Rat) * 10 ^ power
  if l.negative then -magnitude else magnitude

/-- Whether a number has neither fraction nor exponent. -/
def isInteger (l : Literal) : Bool :=
  l.fraction.isNone && l.exponent.isNone

/-- The whole part of a number with its sign. -/
def integer (l : Literal) : Int :=
  if l.negative then -(l.whole.value : Int) else l.whole.value

/-- Whether a number is written as an integer and fits 64 bits, with or without a sign. -/
def fitsWord (l : Literal) : Bool :=
  l.isInteger && leastInteger ≤ l.integer && l.integer ≤ greatestInteger

end Literal

/-! ## Strings -/

/-- The characters that have an escape of one letter. -/
inductive Shorthand where
  | quote
  | backslash
  | slash
  | backspace
  | formFeed
  | lineFeed
  | carriageReturn
  | tab

namespace Shorthand

/-- The letter behind the backslash. -/
def letter : Shorthand → Char
  | .quote => '"'
  | .backslash => '\\'
  | .slash => '/'
  | .backspace => 'b'
  | .formFeed => 'f'
  | .lineFeed => 'n'
  | .carriageReturn => 'r'
  | .tab => 't'

/-- The character that the escape stands for. -/
def char : Shorthand → Char
  | .quote => '"'
  | .backslash => '\\'
  | .slash => '/'
  | .backspace => '\x08'
  | .formFeed => '\x0C'
  | .lineFeed => '\n'
  | .carriageReturn => '\r'
  | .tab => '\t'

end Shorthand

/-- A hexadecimal digit, large or small. -/
structure HexDigit where
  value : Fin 16
  large : Bool

def HexDigit.byte (d : HexDigit) : UInt8 :=
  UInt8.ofNat
    (if d.value < 10 then 0x30 + d.value else (if d.large then 0x41 else 0x61) + (d.value - 10))

/-- The last hexadecimal digit of a number. -/
def HexDigit.small (n : Nat) : HexDigit :=
  ⟨Fin.ofNat 16 n, false⟩

/-- Four hexadecimal digits: a character, or half of a surrogate pair. -/
structure CodeUnit where
  a : HexDigit
  b : HexDigit
  c : HexDigit
  d : HexDigit

namespace CodeUnit

def bytes (u : CodeUnit) : Bytes :=
  [u.a.byte, u.b.byte, u.c.byte, u.d.byte]

def value (u : CodeUnit) : Nat :=
  ((u.a.value * 16 + u.b.value) * 16 + u.c.value) * 16 + u.d.value

end CodeUnit

/-- Whether a character may stand in a string as it is. -/
def isPlainChar (c : Char) : Bool :=
  c ≠ '"' && c ≠ '\\' && 0x20 ≤ c.toNat

/-- A piece of a string. -/
inductive Piece where
  | plain (c : Char) (isPlain : isPlainChar c = true)
  | shorthand (escape : Shorthand)
  | unit (u : CodeUnit)

namespace Piece

def bytes : Piece → Bytes
  | .plain c _ => String.utf8EncodeChar c
  | .shorthand escape => backslashByte :: String.utf8EncodeChar escape.letter
  | .unit u => backslashByte :: 0x75 :: u.bytes

/-- The characters of a string, unless there is half of a surrogate pair without the other. -/
def chars? : List Piece → Option (List Char)
  | [] => some []
  | .plain c _ :: more => (c :: ·) <$> chars? more
  | .shorthand escape :: more => (escape.char :: ·) <$> chars? more
  | .unit u :: more =>
    if isLowSurrogate u.value then none
    else if isHighSurrogate u.value then
      match more with
      | .unit v :: more =>
        if isLowSurrogate v.value then
          (Char.ofNat (pairNumber u.value v.value) :: ·) <$> chars? more
        else none
      | _ => none
    else (Char.ofNat u.value :: ·) <$> chars? more

end Piece

/-- The pieces of a string, between its quotation marks. -/
abbrev Quoted := List Piece

namespace Quoted

def bytes (q : Quoted) : Bytes :=
  quoteByte :: q.flatMap Piece.bytes ++ [quoteByte]

/-- The text that a string stands for. -/
def text? (q : Quoted) : Option String :=
  (Piece.chars? q).map String.ofList

end Quoted

/-! ## Texts -/

/-- Blanks between the parts of a text. -/
structure Blanks where
  bytes : Bytes
  areBlank : ∀ b ∈ bytes, isBlankByte b = true

/-- A part of a text with the blanks around it. -/
structure Padded (α : Type) where
  before : Blanks
  inner : α
  after : Blanks

/-- A member of an object. -/
structure Member (α : Type) where
  name : Padded Quoted
  value : Padded α

/-- A JSON text, without blanks around it. -/
inductive Spelling where
  | null
  | bool (b : Bool)
  | number (l : Literal)
  | string (q : Quoted)
  | emptyArray (inside : Blanks)
  | array (first : Padded Spelling) (more : List (Padded Spelling))
  | emptyObject (inside : Blanks)
  | object (first : Member Spelling) (more : List (Member Spelling))

/-- The name of a member with its colon and the blanks around it. -/
def Padded.nameBytes (name : Padded Quoted) : Bytes :=
  name.before.bytes ++ (Quoted.bytes name.inner ++ (name.after.bytes ++ [colonByte]))

namespace Spelling

mutual

def bytes : Spelling → Bytes
  | null => Utf8.encode "null"
  | bool true => Utf8.encode "true"
  | bool false => Utf8.encode "false"
  | number l => l.bytes
  | string q => q.bytes
  | emptyArray inside => openArray :: (inside.bytes ++ [closeArray])
  | array ⟨before, s, after⟩ more =>
    openArray :: (before.bytes ++ (s.bytes ++ (after.bytes ++ moreItems more)))
  | emptyObject inside => openObject :: (inside.bytes ++ [closeObject])
  | object ⟨name, before, s, after⟩ more =>
    openObject
      :: (name.nameBytes ++ (before.bytes ++ (s.bytes ++ (after.bytes ++ moreMembers more))))

/-- What follows an item: the others, each behind a comma, and the closing bracket. -/
def moreItems : List (Padded Spelling) → Bytes
  | [] => [closeArray]
  | ⟨before, s, after⟩ :: more =>
    commaByte :: (before.bytes ++ (s.bytes ++ (after.bytes ++ moreItems more)))

/-- What follows a member: the others, each behind a comma, and the closing brace. -/
def moreMembers : List (Member Spelling) → Bytes
  | [] => [closeObject]
  | ⟨name, before, s, after⟩ :: more =>
    commaByte
      :: (name.nameBytes ++ (before.bytes ++ (s.bytes ++ (after.bytes ++ moreMembers more))))

end

/-! ## What a text denotes -/

/-- What names have as members, the last of several with one name counting. -/
def family (members : List (String × Meaning)) (name : String) : Option Meaning :=
  members.reverse.lookup name

mutual

/-- What a text denotes, unless one of its strings is no text. -/
def meaning? : Spelling → Option Meaning
  | null => some .null
  | bool b => some (.bool b)
  | number l => some (.number l.value)
  | string q => .string <$> q.text?
  | emptyArray _ => some (.array [])
  | array ⟨_, s, _⟩ more => do
    let first ← s.meaning?
    let more ← meanings? more
    return .array (first :: more)
  | emptyObject _ => some (.object (family []))
  | object ⟨⟨_, q, _⟩, _, s, _⟩ more => do
    let name ← q.text?
    let first ← s.meaning?
    let more ← named? more
    return .object (family ((name, first) :: more))

/-- What items denote. -/
def meanings? : List (Padded Spelling) → Option (List Meaning)
  | [] => some []
  | ⟨_, s, _⟩ :: more => do
    let first ← s.meaning?
    let more ← meanings? more
    return first :: more

/-- What members denote, each with its name. -/
def named? : List (Member Spelling) → Option (List (String × Meaning))
  | [] => some []
  | ⟨⟨_, q, _⟩, _, s, _⟩ :: more => do
    let name ← q.text?
    let first ← s.meaning?
    let more ← named? more
    return (name, first) :: more

end

/-! ## The numbers and the fields of a text -/

mutual

/-- Whether all numbers in a text are of some kind. -/
def everyNumber (p : Literal → Bool) : Spelling → Bool
  | number l => p l
  | array ⟨_, s, _⟩ more => s.everyNumber p && everyItem p more
  | object ⟨_, _, s, _⟩ more => s.everyNumber p && everyMember p more
  | _ => true

def everyItem (p : Literal → Bool) : List (Padded Spelling) → Bool
  | [] => true
  | ⟨_, s, _⟩ :: more => s.everyNumber p && everyItem p more

def everyMember (p : Literal → Bool) : List (Member Spelling) → Bool
  | [] => true
  | ⟨_, _, s, _⟩ :: more => s.everyNumber p && everyMember p more

end

/-- The value of the first member with a name. -/
def member? (members : List (Member Spelling)) (name : String) : Option Spelling :=
  (members.find? fun m => m.name.inner.text? = some name).map fun m => m.value.inner

/-- A field of a record: the first member with its name, or the item at its place if the record is
written as an array. -/
def field? (s : Spelling) (name : String) (index : Nat) : Option Spelling :=
  match s with
  | array first more => ((first :: more)[index]?).map Padded.inner
  | object first more => member? (first :: more) name
  | _ => none

/-! ## Values of one piece and the members of an object -/

/-- The text that a string stands for, if a value is a string. -/
def text? : Spelling → Option String
  | string q => q.text?
  | _ => none

/-- The integer that a value is, if it is written without a fraction and an exponent. A zero with a
minus sign is none. -/
def integer? : Spelling → Option Int
  | number l =>
    if l.isInteger = true ∧ ¬ (l.negative = true ∧ l.whole.value = 0) then some l.integer else none
  | _ => none

/-- The members of an object, in the order in which they are written. -/
def members? : Spelling → Option (List (Member Spelling))
  | emptyObject _ => some []
  | object first more => some (first :: more)
  | _ => none

/-- The values of all members with a name, in the order in which they are written. -/
def valuesOf (members : List (Member Spelling)) (name : String) : List Spelling :=
  (members.filter fun m => m.name.inner.text? = some name).map fun m => m.value.inner

end Spelling

/-- The bytes of a text with blanks around it. -/
def Padded.bytes (text : Padded Spelling) : Bytes :=
  text.before.bytes ++ (text.inner.bytes ++ text.after.bytes)

end BootTrust.Json
