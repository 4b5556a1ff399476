import BootTrust.Text.GraphemeExtend
import BootTrust.Text.Printable
/-
Quoted texts, as messages show them: between double quotes, with a backslash before a quote or a
backslash, short escapes for the common controls, and the number of every character that a reader
would not see as it is: it has no shape of its own, or would alter the shape of its neighbour.
-/

set_option autoImplicit false

namespace BootTrust.Text

/-- `\u` and the number of a character in braces, in small hexadecimal digits without leading
zeros. -/
def numberEscape (c : Char) : List Char :=
  ['\\', 'u', '\x7b'] ++ Nat.toDigits 16 c.toNat ++ ['\x7d']

/-- The sound marks of halfwidth Katakana. They attach to the letter before them, but stand beside
it in a cell of their own. -/
def isHalfwidthMark (c : Char) : Bool :=
  c = '\uff9e' || c = '\uff9f'

/-- Whether a character can stand in a quoted text and be seen there as it is. -/
def isVisible (c : Char) : Bool :=
  isPrintable c && !isIgnorable c && (!extendsGrapheme c || isHalfwidthMark c)

/-- One character of a quoted text. -/
def quoteChar (c : Char) : List Char :=
  if c = '"' then ['\\', '"']
  else if c = '\\' then ['\\', '\\']
  else if c = '\n' then ['\\', 'n']
  else if c = '\r' then ['\\', 'r']
  else if c = '\t' then ['\\', 't']
  else if c = '\x00' then ['\\', '0']
  else if isVisible c then [c]
  else numberEscape c

def quote (s : String) : String :=
  String.ofList (['"'] ++ s.toList.flatMap quoteChar ++ ['"'])

/-- Quotes and line ends are escaped, an accented letter is not. -/
example : quote "q\"\n\u00e9" = "\"q\\\"\\n\u00e9\"" := by decide +kernel

/-- Of the marks on halfwidth and on other Katakana only the latter are escaped, and so is a
filler. -/
example : quote "\uff8a\uff9e\u30cf\u3099\u3164"
    = "\"\uff8a\uff9e\u30cf\\u\x7b3099\x7d\\u\x7b3164\x7d\"" := by
  decide +kernel

end BootTrust.Text
