import BootTrust.Json.Printer
import BootTrust.Json.Typed
import BootTrust.Proofs.Json.Printed
/-
Whole numbers are read back as they were written. The reader stops at a digit that would lead beyond
64 bits, so it cannot simply be said to undo the digits: it does as long as the number fits, which
is where the range of an integer comes in (`boundedDigits_digitBytes`). The first digit is read
apart, because a number may begin with a zero only if nothing but the zero is there.

Behind the digits the reader looks for a point or an exponent. Nothing that can follow a value is
one (`EndsValue`), so the number ends there.
-/

set_option autoImplicit false

namespace BootTrust.Json

/-! ## Digits -/

/-- The digits of a natural number as they are written. -/
def digitBytes (n : Nat) : Bytes :=
  (Decimal.digits n).flatMap String.utf8EncodeChar

/-- A digit is one byte, and its value is read off the byte. -/
theorem digitByte_all : ∀ d, d < 10 →
    String.utf8EncodeChar (Decimal.digitChar d) = [UInt8.ofNat (0x30 + d)]
      ∧ isDigit (UInt8.ofNat (0x30 + d)) = true ∧ digitValue (UInt8.ofNat (0x30 + d)) = d
      ∧ (UInt8.ofNat (0x30 + d) = 0x30 → d = 0) := by
  decide

theorem digitBytes_of_lt {n : Nat} (h : n < 10) : digitBytes n = [UInt8.ofNat (0x30 + n)] := by
  rw [digitBytes, Decimal.digits, if_pos h, List.flatMap_singleton]
  exact (digitByte_all n h).1

theorem digitBytes_of_le {n : Nat} (h : 10 ≤ n) :
    digitBytes n = digitBytes (n / 10) ++ [UInt8.ofNat (0x30 + n % 10)] := by
  rw [digitBytes, Decimal.digits, if_neg (Nat.not_lt.mpr h), List.flatMap_append,
    List.flatMap_singleton, (digitByte_all (n % 10) (Nat.mod_lt n (by decide))).1]
  rfl

theorem boundedDigits_digit {m count d : Nat} (hd : d < 10) (hfits : m * 10 + d < wordLimit)
    (rest : Bytes) :
    boundedDigits m count (UInt8.ofNat (0x30 + d) :: rest)
      = boundedDigits (m * 10 + d) (count + 1) rest := by
  obtain ⟨-, hdigit, hvalue, -⟩ := digitByte_all d hd
  rw [boundedDigits, hdigit, hvalue, if_neg (by decide), if_neg (Nat.not_le.mpr hfits)]

/-- The digits of a number that fits are read as the number, whatever follows them. -/
theorem boundedDigits_digitBytes (n : Nat) (h : n < wordLimit) (rest : Bytes) :
    ∃ count, boundedDigits 0 0 (digitBytes n ++ rest) = boundedDigits n count rest := by
  -- along the digits from the last one on, so that what is before the last digit is a number again
  induction n using Nat.strongRecOn generalizing rest with
  | ind n ih =>
    by_cases hlt : n < 10
    · refine ⟨1, ?_⟩
      rw [digitBytes_of_lt hlt, List.singleton_append, boundedDigits_digit hlt (by omega)]
      congr 1
      omega
    · obtain ⟨count, hfront⟩ := ih (n / 10) (by omega) (by omega)
        (UInt8.ofNat (0x30 + n % 10) :: rest)
      refine ⟨count + 1, ?_⟩
      have hjoin : n / 10 * 10 + n % 10 = n := by omega
      rw [digitBytes_of_le (Nat.not_lt.mp hlt), List.append_assoc, List.singleton_append, hfront,
        boundedDigits_digit (Nat.mod_lt n (by decide)) (by rw [hjoin]; exact h), hjoin]

/-- The first of the digits is no zero, unless the number is. -/
theorem exists_first_digit (n : Nat) : ∃ d more, d < 10
    ∧ digitBytes n = UInt8.ofNat (0x30 + d) :: more ∧ (d = 0 → n = 0 ∧ more = []) := by
  induction n using Nat.strongRecOn with
  | ind n ih =>
    by_cases hlt : n < 10
    · exact ⟨n, [], hlt, digitBytes_of_lt hlt, fun hzero => ⟨hzero, rfl⟩⟩
    · obtain ⟨d, more, hd, hfront, hzero⟩ := ih (n / 10) (by omega)
      refine ⟨d, more ++ [UInt8.ofNat (0x30 + n % 10)], hd, ?_, fun h => ?_⟩
      · rw [digitBytes_of_le (Nat.not_lt.mp hlt), hfront, List.cons_append]
      · have := (hzero h).1
        omega

/-! ## Numbers -/

theorem isBlankByte_of_isDigit {b : UInt8} (h : isDigit b = true) : isBlankByte b = false := by
  rcases hblank : isBlankByte b with _ | _
  · rfl
  · simp only [isBlankByte, Bool.or_eq_true, decide_eq_true_eq] at hblank
    rcases hblank with ((rfl | rfl) | rfl) | rfl <;> exact absurd h (by decide)

/-- Nothing that can follow a value goes on with a number. -/
theorem EndsValue.not_part {b : UInt8} {rest : Bytes} (h : EndsValue (b :: rest)) :
    isDigit b = false ∧ b ≠ pointByte ∧ isExponentLetter b = false := by
  have hb := h b rfl
  simp only [isBlankByte, Bool.or_eq_true, decide_eq_true_eq] at hb
  rcases hb with (((rfl | rfl) | rfl) | rfl) | rfl | rfl | rfl <;> decide

theorem boundedDigits_of_endsValue {n count : Nat} {rest : Bytes} (h : EndsValue rest) :
    boundedDigits n count rest = ((n, count), false, rest) := by
  rcases rest with _ | ⟨b, rest⟩
  · rfl
  · rw [boundedDigits, h.not_part.1]
    rfl

theorem afterWhole_of_endsValue {positive : Bool} {n : Nat} {rest : Bytes} (h : EndsValue rest) :
    afterWhole positive n rest = wholeNumber positive n rest := by
  rcases rest with _ | ⟨b, rest⟩
  · rfl
  · obtain ⟨-, hpoint, hexponent⟩ := h.not_part
    rw [afterWhole, if_neg hpoint, hexponent, if_neg Bool.false_ne_true]

/-- The digits of a number that fits are read as a whole number. -/
theorem number_digitBytes (positive : Bool) {n : Nat} (h : n < wordLimit) {rest : Bytes}
    (hends : EndsValue rest) :
    number positive (digitBytes n ++ rest) = wholeNumber positive n rest := by
  obtain ⟨d, more, hd, hfirst, hzero⟩ := exists_first_digit n
  obtain ⟨-, hdigit, hvalue, hbyte⟩ := digitByte_all d hd
  obtain ⟨count, hall⟩ := boundedDigits_digitBytes n h rest
  rw [boundedDigits_of_endsValue hends] at hall
  rw [hfirst, List.cons_append] at hall ⊢
  by_cases hnull : d = 0
  -- a zero stands alone
  · obtain ⟨rfl, rfl⟩ := hzero hnull
    have hzeroByte : isDigit 0x30 = true := by decide
    rw [hnull, List.nil_append]
    unfold number
    rcases rest with _ | ⟨c, rest⟩
    · rfl
    · have hlast := hends.not_part.1
      simp only [Nat.add_zero, UInt8.reduceOfNat, hzeroByte, hlast]
      exact afterWhole_of_endsValue hends
  · have hne : UInt8.ofNat (0x30 + d) ≠ 0x30 := fun heq => hnull (hbyte heq)
    have hstart : boundedDigits (digitValue (UInt8.ofNat (0x30 + d))) 1 (more ++ rest)
        = ((n, count), false, rest) := by
      rw [boundedDigits_digit hd (by unfold wordLimit; omega)] at hall
      rw [hvalue, ← hall, Nat.zero_mul, Nat.zero_add]
    unfold number
    simp only [hdigit, if_neg hne, hstart]
    exact afterWhole_of_endsValue hends

theorem bytes_integer (n : Int) (inRange : leastInteger ≤ n ∧ n ≤ greatestInteger) :
    (Number.integer n inRange).bytes
      = if n < 0 then minusByte :: digitBytes n.natAbs else digitBytes n.natAbs := by
  have hdigits : Utf8.encode (Decimal.naturalText n.natAbs) = digitBytes n.natAbs := by
    rw [Utf8.encode, Decimal.naturalText, String.toList_ofList, digitBytes]
  rw [Number.bytes, Number.text, Decimal.integerText]
  split
  · rw [Utf8.encode_append, hdigits]
    rfl
  · exact hdigits

/-- The numbers that a whole number of digits stands for. -/
theorem wholeNumber_natAbs {n : Int} (inRange : leastInteger ≤ n ∧ n ≤ greatestInteger)
    (rest : Bytes) :
    wholeNumber (decide (0 ≤ n)) n.natAbs rest = .ok (.integer n inRange, rest) := by
  by_cases h : 0 ≤ n
  · have habs : (n.natAbs : Int) = n := by omega
    have hint : Number.ofInt? n.natAbs = some (.integer n inRange) := by
      rw [habs, Number.ofInt?, dif_pos inRange]
    rw [wholeNumber, decide_eq_true h, if_pos rfl, hint]
  · have habs : (-(n.natAbs : Int)) = n := by omega
    have hint : Number.ofInt? (-n.natAbs) = some (.integer n inRange) := by
      rw [habs, Number.ofInt?, dif_pos inRange]
    rw [wholeNumber, decide_eq_false h, if_neg Bool.false_ne_true, if_neg (by omega), hint]

/-- A number that is kept as an integer is printed behind a minus sign or with a digit at its front,
and what is printed is read back as the number. -/
theorem number_integer (n : Int) (inRange : leastInteger ≤ n ∧ n ≤ greatestInteger) {rest : Bytes}
    (hends : EndsValue rest) :
    (∃ digits, (Number.integer n inRange).bytes = minusByte :: digits
        ∧ number false (digits ++ rest) = .ok (.integer n inRange, rest))
      ∨ (∃ b digits, (Number.integer n inRange).bytes = b :: digits ∧ isDigit b = true
        ∧ number true (b :: digits ++ rest) = .ok (.integer n inRange, rest)) := by
  have hfits : n.natAbs < wordLimit := by
    have hlower := inRange.1
    have hupper := inRange.2
    simp only [leastInteger, greatestInteger, wordLimit] at hlower hupper ⊢
    omega
  have hwhole := wholeNumber_natAbs inRange rest
  rw [bytes_integer]
  by_cases h : n < 0
  · rw [decide_eq_false (by omega)] at hwhole
    rw [if_pos h]
    exact Or.inl ⟨digitBytes n.natAbs, rfl, by rw [number_digitBytes false hfits hends, hwhole]⟩
  · rw [decide_eq_true (by omega)] at hwhole
    rw [if_neg h]
    obtain ⟨d, more, hd, hfirst, -⟩ := exists_first_digit n.natAbs
    refine Or.inr ⟨_, more, hfirst, (digitByte_all d hd).2.1, ?_⟩
    rw [← hfirst, number_digitBytes true hfits hends, hwhole]

/-- A whole number of some kind is read back from what is printed for it. -/
theorem integerAs_integer {kind : IntegerKind} {n : Int}
    {inRange : leastInteger ≤ n ∧ n ≤ greatestInteger} (hkind : kind.least ≤ n ∧ n ≤ kind.greatest)
    {blanks rest : Bytes} (hblanks : ∀ b ∈ blanks, isBlankByte b = true) (hends : EndsValue rest) :
    integerAs kind (blanks ++ (Number.integer n inRange).bytes ++ rest) = .ok (n, rest) := by
  have hof : integerOf kind (.integer n inRange) rest = .ok (n, rest) := by
    rw [integerOf, if_pos hkind]
  rw [integerAs, List.append_assoc, skipBlanks_append hblanks]
  rcases number_integer n inRange hends with ⟨digits, hbytes, hread⟩
    | ⟨b, digits, hbytes, hdigit, hread⟩
  · rw [hbytes, List.cons_append, skipBlanks_cons (by decide)]
    simp only [if_true, hread, bind, Except.bind, hof]
  · have hminus : b ≠ minusByte := by
      rintro rfl
      exact absurd hdigit (by decide)
    rw [hbytes, List.cons_append, skipBlanks_cons (isBlankByte_of_isDigit hdigit)]
    simp only [if_neg hminus, hdigit, if_true]
    rw [List.cons_append] at hread
    simp only [hread, bind, Except.bind, hof]

end BootTrust.Json
