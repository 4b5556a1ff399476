import BootTrust.Text.Utf8
/-
Base64 with the standard alphabet and padding: three bytes become four characters, and a last group
that is not full is filled up with `=`.
-/

set_option autoImplicit false

namespace BootTrust.Base64

/-- The alphabet, in the order of the six-bit numbers. -/
def alphabet : List Char :=
  "ABCDEFGHIJKLMNOPQRSTUVWXYZabcdefghijklmnopqrstuvwxyz0123456789+/".toList

/-- The character of a six-bit number. -/
def symbol (n : Nat) : Char :=
  alphabet.getD n '='

def encodeChars : Bytes → List Char
  | [] => []
  | [a] =>
    let n := a.toNat * 16
    [symbol (n / 64), symbol (n % 64), '=', '=']
  | [a, b] =>
    let n := (a.toNat * 256 + b.toNat) * 4
    [symbol (n / 4096), symbol (n / 64 % 64), symbol (n % 64), '=']
  | a :: b :: c :: rest =>
    let n := (a.toNat * 256 + b.toNat) * 256 + c.toNat
    symbol (n / 262144) :: symbol (n / 4096 % 64) :: symbol (n / 64 % 64) :: symbol (n % 64)
      :: encodeChars rest

/-- The Base64 text of a byte string. -/
def encode (bytes : Bytes) : String :=
  String.ofList (encodeChars bytes)

example : encode [0x66, 0x6f, 0x6f, 0x62] = "Zm9vYg==" := by decide +kernel

end BootTrust.Base64
