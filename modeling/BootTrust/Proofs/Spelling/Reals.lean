import BootTrust.Proofs.Spelling.Numbers
/-
Every number is printed as JSON has them, whatever it is, and the floating point numbers can be told
from the integers by how they are written: they have a fraction or an exponent. Nothing is said here
about the value that is printed for a floating point number, only about its shape.

The shape depends on one fact about the shortest decimal, that its digits are no zero unless its
power is one. A zero with a positive power would be laid out as several zeros before the point.
-/

set_option autoImplicit false

namespace BootTrust

namespace Decimal

/-! ## The digits of the shortest decimal -/

/-- Zero does not lie between two ends of which the lower one is positive, whether they belong to
the interval or not. -/
theorem ne_zero_of_inside {closed : Prop} [Decidable closed] {low high d up : Nat} (hlow : 0 < low)
    (h : (if closed then decide (low ≤ d * up) && decide (d * up ≤ high)
      else decide (low < d * up) && decide (d * up < high)) = true) : d ≠ 0 := by
  rintro rfl
  rw [Nat.zero_mul, decide_eq_false (Nat.not_le.mpr hlow),
    decide_eq_false (Nat.not_lt_zero low)] at h
  simp at h

/-- A neighbour that rounds to a number that is not zero is not zero. -/
theorem digits_ne_zero_of_onGrid? {x : Magnitude} (hx : x.significand ≠ 0) {p : Int} {d : GridPoint}
    (h : onGrid? x p = some d) : d.digits ≠ 0 := by
  have hlow : 0 < 4 * x.significand - (if x.halfBelow then 1 else 2) := by
    split
    · omega
    · omega
  have hdown : 0 < Nat.pow 10 (-p).toNat * Nat.pow 2 (x.power - 2).toNat :=
    Nat.mul_pos (Nat.pow_pos (by decide)) (Nat.pow_pos (by decide))
  have hend := Nat.mul_pos hlow hdown
  unfold onGrid? at h
  simp only at h
  -- the neighbour above is a successor, and the one below lies in the interval where it is taken
  split at h
  · next hbelow _ =>
    split at h
    · cases h
      exact ne_zero_of_inside hend hbelow
    · cases h
      exact Nat.succ_ne_zero _
  · next hbelow _ =>
    cases h
    exact ne_zero_of_inside hend hbelow
  · cases h
    exact Nat.succ_ne_zero _
  · cases h

/-- The shortest decimal of a number that is not zero has other digits than zero, or its power is
zero. -/
theorem power_of_shortest {x : Magnitude} (hx : x.significand ≠ 0)
    (hzero : (shortest x).digits = 0) : (shortest x).power = 0 := by
  rw [shortest] at hzero ⊢
  rcases hfound : (List.range 634).findSome? fun k : Nat => onGrid? x (coarsest - k) with _ | d
  · rfl
  · obtain ⟨k, -, hk⟩ := List.exists_of_findSome?_eq_some hfound
    rw [hfound] at hzero
    exact absurd hzero (digits_ne_zero_of_onGrid? hx hk)

end Decimal

namespace Json

/-! ## Digits as characters -/

namespace Digits

def char (d : Fin 10) : Char :=
  Decimal.digitChar d.val

theorem utf8EncodeChar_char : ∀ d : Fin 10, String.utf8EncodeChar (char d) = [byte d] := by
  decide

theorem flatMap_chars (ds : List (Fin 10)) :
    (ds.map char).flatMap String.utf8EncodeChar = ds.map byte := by
  induction ds with
  | nil => rfl
  | cons d ds ih =>
    rw [List.map_cons, List.flatMap_cons, ih, utf8EncodeChar_char, List.map_cons,
      List.singleton_append]

/-- The digits of a number have a zero at their front only if the number is zero, which then is
all. -/
theorem exists_digits (n : Nat) : ∃ ds : Digits, Decimal.digits n = ds.list.map char
    ∧ (ds.first.val = 0 → n = 0 ∧ ds.more = []) := by
  induction n using Nat.strongRecOn with
  | ind n ih =>
    by_cases hlt : n < 10
    · refine ⟨⟨⟨n, hlt⟩, []⟩, ?_, fun hzero => ⟨hzero, rfl⟩⟩
      rw [Decimal.digits, if_pos hlt]
      rfl
    · obtain ⟨ds, hdigits, hzero⟩ := ih (n / 10) (by omega)
      refine ⟨⟨ds.first, ds.more ++ [⟨n % 10, Nat.mod_lt n (by decide)⟩]⟩, ?_, fun hfirst => ?_⟩
      · rw [Decimal.digits, if_neg hlt, hdigits, list, list, ← List.cons_append, List.map_append]
        rfl
      · have hfront := (hzero hfirst).1
        omega

end Digits

/-! ## The layout of a decimal -/

namespace Literal

/-- Whether a number is written with some characters behind its sign. -/
def HasText (l : Literal) (text : List Char) : Prop :=
  l.whole.bytes ++ l.tailBytes = text.flatMap String.utf8EncodeChar

/-- A number with these digits before and behind the point. -/
theorem exists_fraction (negative : Bool) {first : Fin 10} {more fraction : List (Fin 10)}
    (hzero : first.val = 0 → more = []) (hfraction : fraction ≠ []) :
    ∃ l : Literal, l.negative = negative ∧ l.isInteger = false
      ∧ l.HasText ((first :: more).map Digits.char ++ '.' :: fraction.map Digits.char) := by
  obtain ⟨d, ds, rfl⟩ := List.exists_cons_of_ne_nil hfraction
  refine ⟨⟨negative, ⟨first, more⟩, some ⟨d, ds⟩, none, hzero⟩, rfl, rfl, ?_⟩
  rw [HasText, List.flatMap_append, List.flatMap_cons, Digits.flatMap_chars, Digits.flatMap_chars]
  show _ ++ pointByte :: (Digits.bytes ⟨d, ds⟩ ++ []) = _
  rw [List.append_nil]
  rfl

/-- An exponent as it is printed, always with its sign. -/
theorem exists_exponent (e : Int) :
    ∃ x : Exponent, x.bytes = (Number.exponentText e).flatMap String.utf8EncodeChar := by
  obtain ⟨ds, hdigits, -⟩ := Digits.exists_digits e.natAbs
  refine ⟨⟨false, some (decide (e < 0)), ds⟩, ?_⟩
  rw [Number.exponentText, hdigits, List.flatMap_cons, List.flatMap_cons, Digits.flatMap_chars]
  by_cases hnegative : e < 0
  · rw [if_pos hnegative, decide_eq_true hnegative]
    rfl
  · rw [if_neg hnegative, decide_eq_false hnegative]
    rfl

/-- A number with one digit before the point and an exponent, with a fraction or without. -/
theorem exists_scientific (negative : Bool) (first : Fin 10) (fraction : Option Digits) (e : Int) :
    ∃ l : Literal, l.negative = negative ∧ l.isInteger = false
      ∧ l.HasText (Digits.char first :: ((match fraction with
        | some ds => '.' :: ds.list.map Digits.char
        | none => []) ++ Number.exponentText e)) := by
  obtain ⟨x, hx⟩ := exists_exponent e
  refine ⟨⟨negative, ⟨first, []⟩, fraction, some x, fun _ => rfl⟩, rfl, ?_, ?_⟩
  · rw [isInteger, Option.isNone_some, Bool.and_false]
  · rw [HasText, tailBytes, exponentBytes, List.flatMap_cons, Digits.utf8EncodeChar_char,
      List.flatMap_append, ← hx]
    rcases fraction with _ | ds
    · rfl
    · rw [List.flatMap_cons, Digits.flatMap_chars]
      rfl

/-- A decimal is laid out as a number with a fraction or an exponent. -/
theorem exists_decimal (negative : Bool) {d : Decimal.GridPoint}
    (hzero : d.digits = 0 → d.power = 0) :
    ∃ l : Literal, l.negative = negative ∧ l.isInteger = false
      ∧ l.HasText (Number.decimalText d) := by
  obtain ⟨⟨first, more⟩, hdigits, hfirst⟩ := Digits.exists_digits d.digits
  have hlist : Decimal.digits d.digits = (first :: more).map Digits.char := hdigits
  have hzeros : ∀ n, List.replicate n '0' = (List.replicate n 0).map Digits.char := by
    intro n
    rw [List.map_replicate]
    rfl
  unfold Number.decimalText
  simp only [hlist, List.length_map, List.length_cons]
  split
  · split
    -- zeros before the point
    · next hpower =>
      have hfront : first.val = 0 → more ++ List.replicate d.power.toNat 0 = [] := by
        intro h
        obtain ⟨hn, hmore⟩ := hfirst h
        have hmore : more = [] := hmore
        rw [hmore, hzero hn]
        rfl
      have hjoin : (first :: more).map Digits.char ++ List.replicate d.power.toNat '0' ++ ['.', '0']
          = (first :: (more ++ List.replicate d.power.toNat 0)).map Digits.char
            ++ '.' :: [0].map Digits.char := by
        rw [hzeros, ← List.map_append]
        rfl
      rw [hjoin]
      exact exists_fraction negative hfront (by simp)
    next hpower =>
    split
    -- the point between two digits
    · next he =>
      have hshort : (d.power + (more.length + 1 : Nat) - 1).toNat < more.length := by omega
      rw [← List.map_take, ← List.map_drop, List.take_succ_cons, List.drop_succ_cons]
      refine exists_fraction negative (fun h => ?_) ?_
      · have hmore : more = [] := (hfirst h).2
        rw [hmore, List.take_nil]
      · rw [ne_eq, List.drop_eq_nil_iff]
        omega
    -- zeros behind the point
    · have hjoin : ∀ n, ['0', '.'] ++ List.replicate n '0' ++ (first :: more).map Digits.char
          = [0].map Digits.char
            ++ '.' :: (List.replicate n 0 ++ first :: more).map Digits.char := by
        intro n
        rw [hzeros, List.append_assoc, ← List.map_append]
        rfl
      rw [hjoin]
      exact exists_fraction negative (fun _ => rfl) (by simp)
  -- an exponent
  · rcases more with _ | ⟨second, more⟩
    · exact exists_scientific negative first none _
    · exact exists_scientific negative first (some ⟨second, more⟩) _

end Literal

/-! ## Numbers -/

/-- The integer that a number is kept as. -/
def Number.integer? : Number → Option Int
  | .integer n _ => some n
  | .real _ => none

/-- A floating point number that is not zero is printed as its shortest decimal, behind its sign. -/
theorem Number.exists_literal_decimal {x : Float} (h : isZero x = false) :
    ∃ l : Literal, l.bytes = (Number.real x).bytes ∧ l.isInteger = false := by
  have hnonzero : (Decimal.Magnitude.ofBits x.toBits).significand ≠ 0 := of_decide_eq_false h
  obtain ⟨l, hnegative, hreal, htext⟩ :=
    Literal.exists_decimal (decide (0x8000000000000000 ≤ x.toBits.toNat))
      (Decimal.power_of_shortest hnonzero)
  refine ⟨l, ?_, hreal⟩
  rw [Literal.bytes, htext, hnegative, Number.bytes, Number.text, Utf8.encode, String.toList_ofList,
    Number.realText]
  simp only [if_neg hnonzero]
  by_cases hsign : 0x8000000000000000 ≤ x.toBits.toNat
  · have hminus : String.utf8EncodeChar '-' = [minusByte] := rfl
    rw [if_pos hsign, if_pos (decide_eq_true hsign), List.flatMap_append,
      List.flatMap_singleton, hminus]
  · rw [if_neg hsign, if_neg (by simpa using hsign), List.nil_append, List.nil_append]

/-- Every number is printed as JSON has them. It is written as an integer exactly if it is kept as
one, and with its value if it is kept exactly. -/
theorem Number.exists_spelled (n : Number) : ∃ l : Literal, l.bytes = n.bytes
    ∧ (n.isKeptExactly = true → l.value = n.value) ∧ (Spelling.number l).integer? = n.integer? := by
  rcases n with ⟨n, inRange⟩ | x
  · obtain ⟨l, hbytes, hinteger⟩ := exists_literal_integer n inRange
    exact ⟨l, hbytes, fun _ => Literal.value_of_integer? hinteger, hinteger⟩
  · rcases hzero : isZero x with _ | _
    · obtain ⟨l, hbytes, hreal⟩ := exists_literal_decimal hzero
      refine ⟨l, hbytes, fun hkept => ?_, Literal.integer?_eq_none hreal⟩
      exact absurd (hzero.symm.trans hkept) Bool.false_ne_true
    · obtain ⟨l, hbytes, hreal, hvalue⟩ := exists_literal_zero hzero
      refine ⟨l, hbytes, fun _ => ?_, Literal.integer?_eq_none hreal⟩
      rw [hvalue, value, realValue_of_isZero hzero]

end Json

end BootTrust
