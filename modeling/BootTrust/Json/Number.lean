import BootTrust.Decimal
/-
Numbers of JSON. A number without fraction and exponent that fits 64 bits, with or without a sign,
is kept as an integer; every other number is a binary floating point number. The two never mix: `1`
and `1.0` are different numbers here and are written differently.
-/

set_option autoImplicit false

namespace BootTrust.Json

/-- The least integer that is kept as one. -/
def leastInteger : Int := -0x8000000000000000

/-- The greatest integer that is kept as one. -/
def greatestInteger : Int := 0xFFFFFFFFFFFFFFFF

inductive Number where
  | integer (n : Int) (inRange : leastInteger ≤ n ∧ n ≤ greatestInteger)
  | real (x : Float)

namespace Number

/-- An integer as a number, if it is in range. -/
def ofInt? (n : Int) : Option Number :=
  if h : leastInteger ≤ n ∧ n ≤ greatestInteger then some (.integer n h) else none

/-- Whether a number is kept as an integer. -/
def isInteger : Number → Bool
  | .integer .. => true
  | .real _ => false

/-! ## Text -/

/-- How a floating point number is laid out. -/
structure Layout where
  /-- The least exponent of the first digit that is written positionally. -/
  leastPositional : Int
  /-- The greatest exponent of the first digit that is written positionally. -/
  greatestPositional : Int

/-- From `0.00001` up to sixteen digits before the point a number is written positionally, with at
least one digit on each side of the point; outside that range as in `1.5e+300`. -/
def layout : Layout := ⟨-5, 15⟩

/-- The exponent of a number in scientific form, always with its sign. -/
def exponentText (e : Int) : List Char :=
  'e' :: (if e < 0 then '-' else '+') :: Decimal.digits e.natAbs

/-- Lays out the decimal `d`, which is not zero. -/
def decimalText (d : Decimal.GridPoint) : List Char :=
  let ds := Decimal.digits d.digits
  let e := d.power + ds.length - 1
  if layout.leastPositional ≤ e ∧ e ≤ layout.greatestPositional then
    if 0 ≤ d.power then ds ++ List.replicate d.power.toNat '0' ++ ['.', '0']
    else if 0 ≤ e then ds.take (e.toNat + 1) ++ '.' :: ds.drop (e.toNat + 1)
    else ['0', '.'] ++ List.replicate ((-e).toNat - 1) '0' ++ ds
  else
    match ds with
    | [only] => only :: exponentText e
    | first :: more => first :: '.' :: more ++ exponentText e
    | [] => exponentText e

/-- The shortest text that reads back as the finite number `x`. -/
def realText (x : Float) : List Char :=
  let sign := if 0x8000000000000000 ≤ x.toBits.toNat then ['-'] else []
  let magnitude := Decimal.Magnitude.ofBits x.toBits
  sign ++ if magnitude.significand = 0 then ['0', '.', '0']
    else decimalText (Decimal.shortest magnitude)

/-- A number as it is written in a document and in a message. -/
def text : Number → String
  | .integer n _ => Decimal.integerText n
  | .real x => String.ofList (realText x)

end Number

end BootTrust.Json
