import BootTrust.Text.Utf8
/-
The bytes that JSON is written with. All of them are ASCII, and no byte of a longer character is
ASCII, so a document can be read and written byte by byte.
-/

set_option autoImplicit false

namespace BootTrust.Json

/-- A blank between the parts of a document. -/
def isBlankByte (b : UInt8) : Bool :=
  b = 0x20 || b = 0x09 || b = 0x0A || b = 0x0D

/-- `0` to `9`. -/
def isDigit (b : UInt8) : Bool :=
  0x30 ≤ b && b ≤ 0x39

def digitValue (b : UInt8) : Nat :=
  b.toNat - 0x30

/-- The value of a hexadecimal digit, large or small. -/
def hexValue? (b : UInt8) : Option Nat :=
  if isDigit b then some (digitValue b)
  else if 0x41 ≤ b && b ≤ 0x46 then some (b.toNat - 0x41 + 10)
  else if 0x61 ≤ b && b ≤ 0x66 then some (b.toNat - 0x61 + 10)
  else none

/-- The small hexadecimal digit of a number below sixteen. -/
def hexDigit (n : Nat) : UInt8 :=
  if n < 10 then UInt8.ofNat (0x30 + n) else UInt8.ofNat (0x61 + n - 10)

/-! ## Punctuation -/

def quoteByte : UInt8 := 0x22

def backslashByte : UInt8 := 0x5C

def commaByte : UInt8 := 0x2C

def colonByte : UInt8 := 0x3A

def openArray : UInt8 := 0x5B

def closeArray : UInt8 := 0x5D

def openObject : UInt8 := 0x7B

def closeObject : UInt8 := 0x7D

def minusByte : UInt8 := 0x2D

/-! ## Escapes -/

/-- A byte of a string as it is written: quotation mark, backslash and controls are escaped, with a
letter where there is one for them. -/
def escapeByte (b : UInt8) : Bytes :=
  if b = quoteByte then [backslashByte, quoteByte]
  else if b = backslashByte then [backslashByte, backslashByte]
  else if b = 0x08 then [backslashByte, 0x62]
  else if b = 0x09 then [backslashByte, 0x74]
  else if b = 0x0A then [backslashByte, 0x6E]
  else if b = 0x0C then [backslashByte, 0x66]
  else if b = 0x0D then [backslashByte, 0x72]
  else if b < 0x20 then
    [backslashByte, 0x75, 0x30, 0x30, hexDigit (b.toNat / 16), hexDigit (b.toNat % 16)]
  else [b]

/-- A text as a string of a document. -/
def stringBytes (s : String) : Bytes :=
  quoteByte :: (Utf8.encode s).flatMap escapeByte ++ [quoteByte]

/-- The digits and the quotation mark are what they are called. -/
example : Utf8.encode "\"\\,:[]-09" =
    [quoteByte, backslashByte, commaByte, colonByte, openArray, closeArray, minusByte,
      0x30, 0x39] := by
  decide

end BootTrust.Json
