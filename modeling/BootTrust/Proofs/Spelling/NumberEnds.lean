import BootTrust.Proofs.Accepted.Numbers
import BootTrust.Proofs.Spelling.Skipping
/-
Where a number ends. What a number is kept as cannot be said by its value once it is no integer of
64 bits, since a floating point number near it is kept then, or none at all. It can be said by its
bytes: what is read of a number is the same whatever comes behind it (`number_append`), so it is the
same as what is read of the number alone (`Literal.kept?`).

Only the value has to be followed through the reader for this. Where it stops is known already from
the reader that passes over numbers, and what follows a value is no part of a number.
-/

set_option autoImplicit false

namespace BootTrust.Json

/-! ## Numbers and what follows them -/

/-- The number that was read, if one was. -/
def outcome? (read : Except Fault (Number × Bytes)) : Option Number :=
  read.toOption.map Prod.fst

theorem outcome?_eq_some_iff {read : Except Fault (Number × Bytes)} {n : Number} :
    outcome? read = some n ↔ ∃ left, read = .ok (n, left) := by
  rw [outcome?, Steps.toOption_map_eq_some_iff]
  constructor
  · rintro ⟨⟨_, left⟩, hread, rfl⟩
    exact ⟨left, hread⟩
  · rintro ⟨left, hread⟩
    exact ⟨_, hread, rfl⟩

section Numbers

variable {text rest left : Bytes} {n n' count count' : Nat} {full : Bool}

theorem skipDigits_append (hends : EndsDigits rest) (h : skipDigits count text = (count', left)) :
    skipDigits count (text ++ rest) = (count', left ++ rest) := by
  induction text generalizing count with
  | nil =>
    cases h
    exact skipDigits_map hends _ []
  | cons b text ih =>
    rw [skipDigits] at h
    rw [List.cons_append, skipDigits]
    split at h
    · next hb =>
      rw [if_pos hb]
      exact ih h
    · next hb =>
      cases h
      rw [if_neg hb]
      rfl

theorem boundedDigits_append (hends : EndsDigits rest)
    (h : boundedDigits n count text = ((n', count'), full, left)) :
    boundedDigits n count (text ++ rest) = ((n', count'), full, left ++ rest) := by
  induction text generalizing n count with
  | nil =>
    cases h
    rcases rest with _ | ⟨b, rest⟩
    · rfl
    · rw [List.nil_append, boundedDigits, hends b rfl]
      rfl
  | cons b text ih =>
    rw [boundedDigits] at h
    rw [List.cons_append, boundedDigits]
    split at h
    · next hb =>
      cases h
      rw [if_pos hb]
      rfl
    · next hb =>
      rw [if_neg hb]
      split at h
      · next hlimit =>
        cases h
        rw [if_pos hlimit]
        rfl
      · next hlimit =>
        rw [if_neg hlimit]
        exact ih h

theorem EndsValue.not_sign {b : UInt8} {rest : Bytes} (h : EndsValue (b :: rest)) :
    b ≠ 0x2B ∧ b ≠ minusByte := by
  have hb := h b rfl
  simp only [isBlankByte, Bool.or_eq_true, decide_eq_true_eq] at hb
  rcases hb with (((rfl | rfl) | rfl) | rfl) | rfl | rfl | rfl <;> decide

/-- The digits of an exponent end at the same place, or grow too large there. -/
theorem exponentDigits_append (hends : EndsDigits rest) (n : Nat) (text : Bytes) :
    exponentDigits n (text ++ rest)
      = match exponentDigits n text with
        | .ok (e, left) => .ok (e, left ++ rest)
        | .error left => .error (left ++ rest) := by
  induction text generalizing n with
  | nil =>
    rcases rest with _ | ⟨b, rest⟩
    · rfl
    · simp [exponentDigits, hends b rfl]
  | cons b text ih =>
    rw [List.cons_append, exponentDigits, exponentDigits]
    split
    · rfl
    · split
      · rfl
      · exact ih _

namespace Scaled

variable (x : Scaled)

theorem outcome?_toReal (text text' : Bytes) :
    outcome? (x.toReal text) = outcome? (x.toReal text') := by
  rw [toReal, toReal]
  rcases scale? (UInt64.ofNat x.significand).toFloat x.power with _ | f
  · rfl
  · rfl

theorem readExponentDigits_append (hends : EndsValue rest) (upwards : Bool) (text : Bytes) :
    outcome? (x.readExponentDigits upwards (text ++ rest))
      = outcome? (x.readExponentDigits upwards text) := by
  rcases text with _ | ⟨b, text⟩
  · rcases rest with _ | ⟨b, rest⟩
    · rfl
    · simp [readExponentDigits, hends.not_part.1, outcome?, Except.toOption]
  · rw [List.cons_append, readExponentDigits, readExponentDigits,
      exponentDigits_append hends.endsDigits]
    split
    · rfl
    · rcases exponentDigits (digitValue b) text with left | ⟨e, left⟩
      · simp only
        split
        · rfl
        · rfl
      · exact outcome?_toReal _ _ _

theorem readExponent_cons (b : UInt8) (text : Bytes) :
    x.readExponent (b :: text)
      = if b = 0x2B then x.readExponentDigits true text
        else if b = minusByte then x.readExponentDigits false text
        else x.readExponentDigits true (b :: text) := by
  rw [readExponent]
  by_cases hplus : b = 0x2B
  · simp only [if_pos hplus]
    rfl
  by_cases hminus : b = minusByte
  · simp only [if_neg hplus, if_pos hminus]
    rfl
  · simp only [if_neg hplus, if_neg hminus]
    rfl

theorem readExponent_append (hends : EndsValue rest) (text : Bytes) :
    outcome? (x.readExponent (text ++ rest)) = outcome? (x.readExponent text) := by
  rcases text with _ | ⟨b, text⟩
  · rcases rest with _ | ⟨b, rest⟩
    · rfl
    · obtain ⟨hplus, hminus⟩ := hends.not_sign
      rw [List.nil_append, readExponent_cons, if_neg hplus, if_neg hminus]
      exact x.readExponentDigits_append hends true []
  · rw [List.cons_append, readExponent_cons, readExponent_cons]
    split
    · exact x.readExponentDigits_append hends _ _
    · split
      · exact x.readExponentDigits_append hends _ _
      · exact x.readExponentDigits_append hends _ (b :: text)

theorem readRest_append (hends : EndsValue rest) (text : Bytes) :
    outcome? (x.readRest (text ++ rest)) = outcome? (x.readRest text) := by
  rcases text with _ | ⟨b, text⟩
  · rcases rest with _ | ⟨b, rest⟩
    · rfl
    · simp only [List.nil_append, readRest, hends.not_part.2.2]
      exact x.outcome?_toReal _ _
  · rw [List.cons_append, readRest, readRest]
    split
    · exact x.readExponent_append hends text
    · exact x.outcome?_toReal _ _

theorem readFraction_append (hends : EndsValue rest) (text : Bytes) :
    outcome? (x.readFraction (text ++ rest)) = outcome? (x.readFraction text) := by
  rcases hdigits : boundedDigits x.significand 0 text with ⟨⟨m, count⟩, full, left⟩
  rw [readFraction, readFraction, boundedDigits_append hends.endsDigits hdigits, hdigits]
  simp only
  split
  · rw [skipDigits_append hends.endsDigits (rfl : skipDigits 0 left = (_, _))]
    exact readRest_append _ hends _
  · split
    · rcases left with _ | ⟨b, left⟩
      · rcases rest with _ | ⟨b, rest⟩
        · rfl
        · rfl
      · rfl
    · exact readRest_append _ hends _

end Scaled

theorem outcome?_wholeNumber (positive : Bool) (n : Nat) (text text' : Bytes) :
    outcome? (wholeNumber positive n text) = outcome? (wholeNumber positive n text') := by
  rw [wholeNumber, wholeNumber]
  split
  · split
    · rfl
    · exact Scaled.outcome?_toReal _ _ _
  · split
    · exact Scaled.outcome?_toReal _ _ _
    · split
      · rfl
      · exact Scaled.outcome?_toReal _ _ _

theorem afterWhole_append (hends : EndsValue rest) (positive : Bool) (n : Nat) (text : Bytes) :
    outcome? (afterWhole positive n (text ++ rest)) = outcome? (afterWhole positive n text) := by
  rcases text with _ | ⟨b, text⟩
  · rcases rest with _ | ⟨b, rest⟩
    · rfl
    · obtain ⟨-, hpoint, hletter⟩ := hends.not_part
      simp only [List.nil_append, afterWhole, if_neg hpoint, hletter, if_neg Bool.false_ne_true]
      exact outcome?_wholeNumber _ _ _ _
  · rw [List.cons_append, afterWhole, afterWhole]
    split
    · exact Scaled.readFraction_append _ hends text
    · split
      · exact Scaled.readExponent_append _ hends text
      · exact outcome?_wholeNumber _ _ _ _

/-- Reads what follows digits of which the last do not fit. -/
def Scaled.readBehind (x : Scaled) : Bytes → Except Fault (Number × Bytes)
  | [] => x.toReal []
  | c :: rest => if c = pointByte then x.readFraction rest else x.readRest (c :: rest)

theorem Scaled.readBehind_append (x : Scaled) (hends : EndsValue rest) (text : Bytes) :
    outcome? (x.readBehind (text ++ rest)) = outcome? (x.readBehind text) := by
  rcases text with _ | ⟨c, text⟩
  · rcases rest with _ | ⟨c, rest⟩
    · rfl
    · simp only [List.nil_append, readBehind, if_neg hends.not_part.2.1]
      exact x.readRest_append hends []
  · rw [List.cons_append, readBehind, readBehind]
    split
    · exact x.readFraction_append hends text
    · exact x.readRest_append hends (c :: text)

theorem number_nonzero {b : UInt8} (hdigit : isDigit b = true) (hzero : b ≠ 0x30) (positive : Bool)
    (text : Bytes) :
    number positive (b :: text)
      = if !(boundedDigits (digitValue b) 1 text).2.1 then
          afterWhole positive (boundedDigits (digitValue b) 1 text).1.1
            (boundedDigits (digitValue b) 1 text).2.2
        else Scaled.readBehind ⟨positive, (boundedDigits (digitValue b) 1 text).1.1,
          (skipDigits 0 (boundedDigits (digitValue b) 1 text).2.2).1⟩
          (skipDigits 0 (boundedDigits (digitValue b) 1 text).2.2).2 := by
  simp only [number, hdigit, Bool.not_true, Bool.false_eq_true, if_false, if_neg hzero]
  rfl

/-- What is read of a number does not depend on what comes behind it. -/
theorem number_append (hends : EndsValue rest) (positive : Bool) (text : Bytes) :
    outcome? (number positive (text ++ rest)) = outcome? (number positive text) := by
  rcases text with _ | ⟨b, text⟩
  · rcases rest with _ | ⟨b, rest⟩
    · rfl
    · simp [number, hends.not_part.1, outcome?, Except.toOption]
  rw [List.cons_append]
  rcases hdigit : isDigit b with _ | _
  · simp [number, hdigit, outcome?, Except.toOption]
  by_cases hzero : b = 0x30
  · subst hzero
    rcases text with _ | ⟨c, text⟩
    · rcases rest with _ | ⟨c, rest⟩
      · rfl
      · simp only [number, hdigit, List.nil_append, hends.not_part.1]
        exact afterWhole_append hends positive 0 []
    · rcases hc : isDigit c with _ | _
      · simp only [number, hdigit, List.cons_append, hc]
        exact afterWhole_append hends positive 0 (c :: text)
      · simp [number, hdigit, hc, outcome?, Except.toOption]
  · rcases hdigits : boundedDigits (digitValue b) 1 text with ⟨⟨m, count⟩, full, left⟩
    rw [number_nonzero hdigit hzero, number_nonzero hdigit hzero,
      boundedDigits_append hends.endsDigits hdigits, hdigits]
    rcases full with _ | _
    · exact afterWhole_append hends positive m left
    · rcases hskip : skipDigits 0 left with ⟨count', behind⟩
      simp only [skipDigits_append hends.endsDigits hskip]
      exact Scaled.readBehind_append _ hends behind

end Numbers

/-- What a number is kept as, unless it is too large. -/
def Literal.kept? (l : Literal) : Option Number :=
  outcome? (number (!l.negative) (l.whole.bytes ++ l.tailBytes))

/-- A number is read as what it is kept as, up to its last byte. -/
theorem Literal.number_eq_ok_iff (l : Literal) {rest left : Bytes} {n : Number}
    (hends : EndsValue rest) :
    number (!l.negative) (l.whole.bytes ++ (l.tailBytes ++ rest)) = .ok (n, left)
      ↔ l.kept? = some n ∧ left = rest := by
  have hpast : ∀ {n left}, number (!l.negative) (l.whole.bytes ++ (l.tailBytes ++ rest))
      = .ok (n, left) → left = rest := by
    intro n left h
    exact (Except.ok.inj ((skipNumber_spelled l hends).symm.trans (skipNumber_of_number h))).symm
  rw [kept?, ← number_append hends, List.append_assoc, outcome?_eq_some_iff]
  constructor
  · intro h
    exact ⟨⟨left, h⟩, hpast h⟩
  · rintro ⟨⟨left', h⟩, rfl⟩
    rwa [hpast h] at h

end BootTrust.Json
