import BootTrust.Json.Spelling
import BootTrust.Proofs.Json.Numbers
/-
Numbers as they are written, and numbers as they are kept. The digits of a whole number without a
leading zero are the digits that are printed for its value (`Digits.bytes_eq`), so an integer that
fits 64 bits is read as itself by what is known of printed numbers. One integer is an exception:
`-0` is kept as a floating point number, and its value is zero all the same.

In the other direction an integer is printed with the digits of its value, and a floating point zero
as a zero with a fraction. Other floating point numbers are printed in their shortest form, which
need not be their value. So a number is said to be kept exactly if it is an integer or a zero
(`Number.isKeptExactly`).
-/

set_option autoImplicit false

namespace BootTrust.Json

/-! ## Digits -/

namespace Digits

theorem byte_all : ∀ d : Fin 10, byte d = UInt8.ofNat (0x30 + d.val) ∧ isDigit (byte d) = true
    ∧ digitValue (byte d) = d.val := by
  decide

theorem valueFrom_cons (n : Nat) (d : Fin 10) (ds : List (Fin 10)) :
    valueFrom n (d :: ds) = valueFrom (n * 10 + d.val) ds := rfl

/-- Digits behind a number that is not zero are those that are printed for the number they lead
to. -/
theorem digitBytes_valueFrom {n : Nat} (hn : n ≠ 0) (ds : List (Fin 10)) :
    digitBytes (valueFrom n ds) = digitBytes n ++ ds.map byte := by
  induction ds generalizing n with
  | nil => rw [List.map_nil, List.append_nil, valueFrom, List.foldl_nil]
  | cons d ds ih =>
    have hd := d.isLt
    have hfront : (n * 10 + d.val) / 10 = n := by omega
    have hlast : (n * 10 + d.val) % 10 = d.val := by omega
    rw [valueFrom_cons, ih (by omega), digitBytes_of_le (by omega), hfront, hlast,
      List.append_assoc, List.map_cons, (byte_all d).1, List.singleton_append]

/-- Digits without a leading zero are those that are printed for their value. -/
theorem bytes_eq (ds : Digits) (h : ds.first.val = 0 → ds.more = []) :
    ds.bytes = digitBytes ds.value := by
  obtain ⟨first, more⟩ := ds
  have hfirst := first.isLt
  have hvalue : value ⟨first, more⟩ = valueFrom first.val more := by
    rw [value, list, valueFrom_cons, Nat.zero_mul, Nat.zero_add]
  rw [hvalue, bytes, list, List.map_cons, (byte_all first).1]
  by_cases hzero : first.val = 0
  · obtain rfl : more = [] := h hzero
    rw [valueFrom, List.foldl_nil, digitBytes_of_lt hfirst]
    rfl
  · rw [digitBytes_valueFrom hzero, digitBytes_of_lt hfirst]
    rfl

/-- Every number can be written with digits, and without a leading zero. -/
theorem exists_value_eq (n : Nat) :
    ∃ ds : Digits, ds.value = n ∧ (ds.first.val = 0 → ds.more = []) := by
  induction n using Nat.strongRecOn with
  | ind n ih =>
    by_cases hlt : n < 10
    · refine ⟨⟨⟨n, hlt⟩, []⟩, ?_, fun _ => rfl⟩
      rw [value, list, valueFrom_cons, valueFrom, List.foldl_nil, Nat.zero_mul, Nat.zero_add]
    · obtain ⟨ds, hvalue, hzero⟩ := ih (n / 10) (by omega)
      refine ⟨⟨ds.first, ds.more ++ [⟨n % 10, Nat.mod_lt n (by decide)⟩]⟩, ?_, fun hfirst => ?_⟩
      · rw [value, list, valueFrom] at hvalue ⊢
        rw [← List.cons_append, List.foldl_append, hvalue, List.foldl_cons, List.foldl_nil]
        show n / 10 * 10 + n % 10 = n
        omega
      · -- the number before the last digit would be zero
        rw [value, list, valueFrom, hzero hfirst, List.foldl_cons, List.foldl_nil] at hvalue
        have hfirst : ds.first.val = 0 := hfirst
        omega

/-- Digits from their values. -/
def ofNats (first : Nat) (more : List Nat) : Digits :=
  ⟨Fin.ofNat 10 first, more.map (Fin.ofNat 10)⟩

theorem first_byte (ds : Digits) : ∃ b rest, ds.bytes = b :: rest ∧ isDigit b = true :=
  ⟨byte ds.first, ds.more.map byte, rfl, (byte_all ds.first).2.1⟩

end Digits

/-! ## What a number is -/

namespace Number

/-- The number that a floating point number is, exactly. -/
def realValue (x : Float) : Rat :=
  let magnitude := Decimal.Magnitude.ofBits x.toBits
  let value := (magnitude.significand : Rat) * 2 ^ magnitude.power
  if 0x8000000000000000 ≤ x.toBits.toNat then -value else value

/-- The number that is kept. -/
def value : Number → Rat
  | .integer n _ => n
  | .real x => realValue x

/-- Whether a floating point number is zero, with one sign or the other. -/
def isZero (x : Float) : Bool :=
  (Decimal.Magnitude.ofBits x.toBits).significand = 0

/-- Whether a number is kept as an integer, or is zero. -/
def isKeptExactly : Number → Bool
  | .integer .. => true
  | .real x => isZero x

theorem realValue_of_isZero {x : Float} (h : isZero x = true) : realValue x = 0 := by
  have hzero : (Decimal.Magnitude.ofBits x.toBits).significand = 0 := of_decide_eq_true h
  rw [realValue]
  have hcast : ((0 : Nat) : Rat) = 0 := rfl
  simp only [hzero, hcast, Rat.zero_mul, Rat.neg_zero, ite_self]

end Number

/-! ## Integers -/

namespace Literal

variable {l : Literal}

theorem value_of_isInteger (h : l.isInteger = true) : l.value = l.integer := by
  obtain ⟨negative, whole, fraction, exponent, hzero⟩ := l
  rw [isInteger, Bool.and_eq_true] at h
  obtain rfl : fraction = none := Option.isNone_iff_eq_none.mp h.1
  obtain rfl : exponent = none := Option.isNone_iff_eq_none.mp h.2
  have hpower : (10 : Rat) ^ (0 - (([] : List (Fin 10)).length : Int)) = 1 := rfl
  simp only [value, fractionList, integer, List.append_nil, Option.map_none, Option.getD_none,
    hpower, Rat.mul_one]
  rcases negative with _ | _
  · exact (Rat.intCast_natCast _).symm
  · simp only [if_true, Rat.intCast_neg, Rat.intCast_natCast]
    rfl

theorem tailBytes_of_isInteger (h : l.isInteger = true) : l.tailBytes = [] := by
  rw [isInteger, Bool.and_eq_true] at h
  rw [tailBytes, exponentBytes, Option.isNone_iff_eq_none.mp h.1, Option.isNone_iff_eq_none.mp h.2]

theorem fitsWord_iff : l.fitsWord = true ↔
    l.isInteger = true ∧ leastInteger ≤ l.integer ∧ l.integer ≤ greatestInteger := by
  rw [fitsWord, Bool.and_eq_true, Bool.and_eq_true, decide_eq_true_iff,
    decide_eq_true_iff, and_assoc]

/-- Negative zero is kept as a floating point number. -/
theorem toReal_negativeZero (rest : Bytes) :
    ∃ x, Scaled.toReal ⟨false, 0, 0⟩ rest = .ok (.real x, rest) ∧ Number.isZero x = true := by
  have hfinite : ((UInt64.ofNat 0).toFloat * powerOfTen (0 : Int).toNat).isInf = false := by decide
  have hscale : scale? (UInt64.ofNat 0).toFloat 0
      = some ((UInt64.ofNat 0).toFloat * powerOfTen (0 : Int).toNat) := by
    rw [scale?]
    simp only [hfinite, Int.natAbs_zero, Nat.zero_le, Int.le_refl, if_true]
    rfl
  refine ⟨-((UInt64.ofNat 0).toFloat * powerOfTen (0 : Int).toNat), ?_, by decide⟩
  rw [Scaled.toReal, hscale]
  rfl

/-- The digits of an integer that fits 64 bits fit them too. -/
theorem whole_lt_wordLimit (h : l.fitsWord = true) : l.whole.value < wordLimit := by
  obtain ⟨-, hleast, hgreatest⟩ := fitsWord_iff.mp h
  rw [integer] at hleast hgreatest
  simp only [leastInteger, greatestInteger, wordLimit] at hleast hgreatest ⊢
  split at hgreatest
  · rw [if_pos ‹_›] at hleast
    omega
  · omega

/-- An integer that fits 64 bits is kept as itself, whatever follows that ends a value, unless it is
a zero with a minus sign. -/
theorem number_integer (h : l.fitsWord = true) (hzero : ¬ (l.negative = true ∧ l.whole.value = 0))
    {rest : Bytes} (hends : EndsValue rest) :
    number (!l.negative) (l.whole.bytes ++ rest)
      = .ok (.integer l.integer (fitsWord_iff.mp h).2, rest) := by
  have habs : l.integer.natAbs = l.whole.value := by
    rw [integer]
    split
    · omega
    · omega
  have hsign : decide (0 ≤ l.integer) = !l.negative := by
    rw [integer]
    rcases hnegative : l.negative with _ | _
    · exact decide_eq_true (Int.natCast_nonneg _)
    · have hne : l.whole.value ≠ 0 := fun hvalue => hzero ⟨hnegative, hvalue⟩
      refine decide_eq_false ?_
      rw [if_pos rfl]
      omega
  have hwhole := wholeNumber_natAbs (fitsWord_iff.mp h).2 rest
  rw [habs, hsign] at hwhole
  rw [l.whole.bytes_eq l.noLeadingZero, number_digitBytes _ (whole_lt_wordLimit h) hends, hwhole]

/-- An integer that fits 64 bits is read as a number with its value, whatever follows that ends a
value. -/
theorem number_of_fitsWord (h : l.fitsWord = true) {rest : Bytes} (hends : EndsValue rest) :
    ∃ n : Number, number (!l.negative) (l.whole.bytes ++ rest) = .ok (n, rest)
      ∧ n.value = l.value ∧ n.isKeptExactly = true := by
  rw [value_of_isInteger (fitsWord_iff.mp h).1]
  by_cases hzero : l.negative = true ∧ l.whole.value = 0
  · obtain ⟨hnegative, hvalue⟩ := hzero
    obtain ⟨x, hread, hx⟩ := toReal_negativeZero rest
    refine ⟨.real x, ?_, ?_, hx⟩
    · rw [l.whole.bytes_eq l.noLeadingZero, number_digitBytes _ (whole_lt_wordLimit h) hends,
        hnegative, hvalue, ← hread]
      rfl
    · rw [Number.value, Number.realValue_of_isZero hx, integer, hnegative, hvalue]
      rfl
  · exact ⟨_, number_integer h hzero hends, rfl, rfl⟩

end Literal

/-! ## Printed numbers -/

/-- An integer with given digits. -/
def Literal.ofDigits (negative : Bool) (ds : Digits)
    (h : ds.first.val = 0 → ds.more = []) : Literal :=
  ⟨negative, ds, none, none, h⟩

/-- A number that is written as an integer has it as its value. -/
theorem Literal.value_of_integer? {l : Literal} {n : Int}
    (h : (Spelling.number l).integer? = some n) : l.value = n := by
  rw [Spelling.integer?] at h
  split at h
  · next hwhole =>
    cases h
    exact value_of_isInteger hwhole.1
  · cases h

/-- A number with a fraction or an exponent is no integer. -/
theorem Literal.integer?_eq_none {l : Literal} (h : l.isInteger = false) :
    (Spelling.number l).integer? = none := by
  rw [Spelling.integer?, if_neg]
  rw [h]
  rintro ⟨⟨⟩, -⟩

/-- An integer is printed with its sign and the digits of its magnitude. -/
theorem Number.exists_literal_integer (n : Int) (inRange : leastInteger ≤ n ∧ n ≤ greatestInteger) :
    ∃ l : Literal, l.bytes = (Number.integer n inRange).bytes
      ∧ (Spelling.number l).integer? = some n := by
  obtain ⟨ds, hvalue, hzero⟩ := Digits.exists_value_eq n.natAbs
  refine ⟨.ofDigits (decide (n < 0)) ds hzero, ?_, ?_⟩
  · rw [Literal.bytes, Literal.tailBytes_of_isInteger rfl, List.append_nil, bytes_integer,
      Literal.ofDigits, ds.bytes_eq hzero, hvalue]
    by_cases hnegative : n < 0
    · rw [if_pos hnegative, decide_eq_true hnegative]
      rfl
    · rw [if_neg hnegative, decide_eq_false hnegative]
      rfl
  · have hinteger : (Literal.ofDigits (decide (n < 0)) ds hzero).integer = n := by
      rw [Literal.integer, Literal.ofDigits, hvalue]
      by_cases hnegative : n < 0
      · rw [decide_eq_true hnegative, if_pos rfl]
        omega
      · rw [decide_eq_false hnegative, if_neg Bool.false_ne_true]
        omega
    -- zero has no minus sign
    have hsign : ¬ (decide (n < 0) = true ∧ ds.value = 0) := by
      rw [decide_eq_true_iff, hvalue]
      omega
    rw [Spelling.integer?, if_pos ⟨rfl, hsign⟩, hinteger]

/-- A zero with a fraction, as a floating point zero is printed. -/
def Literal.zero (negative : Bool) : Literal :=
  ⟨negative, ⟨0, []⟩, some ⟨0, []⟩, none, fun _ => rfl⟩

theorem Literal.value_zero : ∀ negative, (zero negative).value = 0 := by
  decide +kernel

/-- A floating point zero is printed with its sign. -/
theorem Number.exists_literal_zero {x : Float} (h : isZero x = true) :
    ∃ l : Literal, l.bytes = (Number.real x).bytes ∧ l.isInteger = false ∧ l.value = 0 := by
  have hzero : (Decimal.Magnitude.ofBits x.toBits).significand = 0 := of_decide_eq_true h
  have hpositive : Utf8.encode (String.ofList ['0', '.', '0']) = (Literal.zero false).bytes := rfl
  have hnegative : Utf8.encode (String.ofList ['-', '0', '.', '0']) = (Literal.zero true).bytes :=
    rfl
  rw [Number.bytes, Number.text, Number.realText]
  simp only [hzero, if_true]
  by_cases hsign : 0x8000000000000000 ≤ x.toBits.toNat
  · refine ⟨.zero true, ?_, rfl, Literal.value_zero true⟩
    rw [if_pos hsign, List.singleton_append, hnegative]
  · refine ⟨.zero false, ?_, rfl, Literal.value_zero false⟩
    rw [if_neg hsign, List.nil_append, hpositive]

end BootTrust.Json
