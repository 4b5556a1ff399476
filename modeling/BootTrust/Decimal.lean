/-
Numbers in decimal digits. Whole numbers come without leading zeros, and with a minus sign below
zero.

A binary floating point number comes as its shortest decimal: of all decimals that round to the
number, one with the fewest digits, and of those the nearest. Everything here is whole arithmetic on
the significand and the power of two, so it is exact.

The reals that round to `m * 2 ^ q` form an interval around it, with its ends if and only if `m` is
even. A decimal with the power `p` lies on the grid of the multiples of `10 ^ p`. If any point of a
grid lies in the interval then so does one of the two neighbours of the number on that grid, so it
is enough to look at those two, grid after grid from the coarsest on.
-/

set_option autoImplicit false

namespace BootTrust.Decimal

/-! ## Whole numbers -/

/-- The character of a digit below ten. -/
def digitChar (d : Nat) : Char :=
  Char.ofNat (48 + d)

/-- The digits of a natural number, the highest first. -/
def digits (n : Nat) : List Char :=
  if n < 10 then [digitChar n] else digits (n / 10) ++ [digitChar (n % 10)]

def naturalText (n : Nat) : String :=
  String.ofList (digits n)

def integerText (n : Int) : String :=
  if n < 0 then "-" ++ naturalText n.natAbs else naturalText n.natAbs

example : integerText (-120) = "-120" := by decide +kernel

/-! ## Floating point numbers -/

/-- A finite nonzero magnitude `significand * 2 ^ power`. -/
structure Magnitude where
  significand : Nat
  power : Int
  /-- Whether the next smaller number is only half a step away: the significand is the least one of
  its power. -/
  halfBelow : Bool

/-- Reads the fields of a 64-bit floating point word, without its sign. -/
def Magnitude.ofBits (bits : UInt64) : Magnitude :=
  let fraction := (bits &&& 0xFFFFFFFFFFFFF).toNat
  let exponent := (bits >>> 52 &&& 0x7FF).toNat
  if exponent = 0 then ⟨fraction, -1074, false⟩
  else ⟨0x10000000000000 + fraction, (exponent : Int) - 1075, fraction = 0 && 1 < exponent⟩

/-- A decimal `digits * 10 ^ power`: a point of the grid of its power. -/
structure GridPoint where
  digits : Nat
  power : Int

/-- The better one of the two neighbours of a number on the grid of the power `p`, if one of them
rounds to the number. An exact tie goes to the even neighbour. -/
def onGrid? (x : Magnitude) (p : Int) : Option GridPoint :=
  -- in quarters of a step of the number, so that both ends of the interval are whole
  let centre := 4 * x.significand
  let low := centre - (if x.halfBelow then 1 else 2)
  let high := centre + 2
  let q := x.power - 2
  -- a multiple `d` of the grid is `d * up / down` such quarters
  let up := Nat.pow 10 p.toNat * Nat.pow 2 (-q).toNat
  let down := Nat.pow 10 (-p).toNat * Nat.pow 2 q.toNat
  let inside (d : Nat) : Bool :=
    if x.significand % 2 = 0 then low * down ≤ d * up && d * up ≤ high * down
    else low * down < d * up && d * up < high * down
  let below := centre * down / up
  let above := below + 1
  match inside below, inside above with
  | true, true =>
    let toBelow := centre * down - below * up
    let toAbove := above * up - centre * down
    if toBelow < toAbove || (toBelow = toAbove && below % 2 = 0) then some ⟨below, p⟩
    else some ⟨above, p⟩
  | true, false => some ⟨below, p⟩
  | false, true => some ⟨above, p⟩
  | false, false => none

/-- The coarsest grid that a finite number can need: the largest number is below `10 ^ 309`. -/
def coarsest : Int := 309

/-- The shortest decimal of a magnitude. The finest grid tried, `10 ^ -324`, is finer than the
spacing of the smallest numbers. -/
def shortest (x : Magnitude) : GridPoint :=
  ((List.range 634).findSome? fun k : Nat => onGrid? x (coarsest - k)).getD ⟨0, 0⟩

end BootTrust.Decimal
