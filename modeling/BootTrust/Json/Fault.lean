import BootTrust.Text.Utf8
import BootTrust.Json.Number
import BootTrust.Text.Quoted
/-
What is wrong with a text that is not the document it should be, and where. While reading, a place
is kept as the number of bytes left, because that is what a reader has at hand; only a complete
failure is turned into a line and a column, which count from the front.
-/

set_option autoImplicit false

namespace BootTrust.Json

/-- What was found in place of something else. -/
inductive Found where
  | null
  | bool (b : Bool)
  | number (n : Number)
  | string (s : String)
  | array
  | object

/-- What was found, in words. -/
def Found.text : Found → String
  | .null => "null"
  | .bool b => "boolean `" ++ (if b then "true" else "false") ++ "`"
  | .number n => (if n.isInteger then "integer `" else "floating point `") ++ n.text ++ "`"
  | .string s => "string " ++ Text.quote s
  | .array => "sequence"
  | .object => "map"

/-- What can be wrong. -/
inductive Cause where
  | endInArray
  | endInObject
  | endInString
  /-- The text ends where a value should be. -/
  | endInValue
  | expectedColon
  | expectedCommaOrEndOfArray
  | expectedCommaOrEndOfObject
  /-- One of the words `null`, `true` and `false` is misspelt. -/
  | expectedWord
  | expectedValue
  | invalidEscape
  | invalidNumber
  /-- A number is greater than every floating point number. -/
  | numberOutOfRange
  /-- The bytes of a string are no text. -/
  | invalidText
  /-- A control character in a string is not escaped. -/
  | bareControl
  | nameNotString
  /-- Half of a surrogate pair stands alone. -/
  | loneSurrogate
  | trailingComma
  /-- Something follows the end of the document. -/
  | trailingCharacters
  /-- The first half of a surrogate pair is not followed by an escape. -/
  | cutSurrogatePair
  | nestedTooDeeply
  /-- A value is of another type than the record wants. -/
  | wrongType (found : Found) (expected : String)
  /-- An integer does not fit the type that the record wants. -/
  | wrongValue (found : Number) (expected : String)
  /-- A record written as an array has too few items. -/
  | wrongLength (count : Nat) (expected : String)
  | missingMember (name : String)
  | duplicateMember (name : String)

def Cause.text : Cause → String
  | .endInArray => "EOF while parsing a list"
  | .endInObject => "EOF while parsing an object"
  | .endInString => "EOF while parsing a string"
  | .endInValue => "EOF while parsing a value"
  | .expectedColon => "expected `:`"
  | .expectedCommaOrEndOfArray => "expected `,` or `]`"
  | .expectedCommaOrEndOfObject => "expected `,` or `\x7d`"
  | .expectedWord => "expected ident"
  | .expectedValue => "expected value"
  | .invalidEscape => "invalid escape"
  | .invalidNumber => "invalid number"
  | .numberOutOfRange => "number out of range"
  | .invalidText => "invalid unicode code point"
  | .bareControl => "control character (\\u0000-\\u001F) found while parsing a string"
  | .nameNotString => "key must be a string"
  | .loneSurrogate => "lone leading surrogate in hex escape"
  | .trailingComma => "trailing comma"
  | .trailingCharacters => "trailing characters"
  | .cutSurrogatePair => "unexpected end of hex escape"
  | .nestedTooDeeply => "recursion limit exceeded"
  | .wrongType found expected => "invalid type: " ++ found.text ++ ", expected " ++ expected
  | .wrongValue found expected =>
    "invalid value: " ++ (Found.number found).text ++ ", expected " ++ expected
  | .wrongLength count expected =>
    "invalid length " ++ Decimal.naturalText count ++ ", expected " ++ expected
  | .missingMember name => "missing field `" ++ name ++ "`"
  | .duplicateMember name => "duplicate field `" ++ name ++ "`"

/-- A cause and the number of bytes that are left behind its place. -/
structure Fault where
  cause : Cause
  left : Nat

namespace Fault

/-- A fault at the point where `rest` begins. -/
def here (cause : Cause) (rest : Bytes) : Fault := ⟨cause, rest.length⟩

/-- A fault at the byte that `rest` begins with: its place is behind that byte, or at the end of the
text if there is none. -/
def on (cause : Cause) (rest : Bytes) : Fault := ⟨cause, rest.length - 1⟩

end Fault

/-- A complete failure to read a document. -/
structure ReadError where
  cause : Cause
  /-- Lines count from one. -/
  line : Nat
  /-- Bytes from the start of the line to the place. -/
  column : Nat

namespace ReadError

def lineEnd : UInt8 := 0x0A

/-- The failure that a fault means in the document `text`. -/
def ofFault (text : Bytes) (fault : Fault) : ReadError :=
  let before := text.take (text.length - fault.left)
  { cause := fault.cause
    line := 1 + before.count lineEnd
    column := (before.reverse.takeWhile (· != lineEnd)).length }

def message (e : ReadError) : String :=
  e.cause.text ++ " at line " ++ Decimal.naturalText e.line ++ " column "
    ++ Decimal.naturalText e.column

end ReadError

end BootTrust.Json
