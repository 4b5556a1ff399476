import BootTrust.Proofs.Spelling.Documents
/-
What a reader takes from the front of a text is written as the grammar says, and what it leaves is a
text again. This is the converse of reading what is written, and the reason why nothing is lost by
speaking of spellings instead of texts. First the blanks and the numbers.

A reader asks for more than someone who passes over, since a number must not be too large. Where it
gives up digits that do not fit it takes them all the same, so a number that is read is also passed
over, with the same bytes left (`skipNumber_of_number`). It is only for numbers that are passed over
that the digits have to be found (`skipNumber_taken`).
-/

set_option autoImplicit false

namespace BootTrust

/-! ## Texts without their first character -/

namespace Utf8.IsText

theorem exists_char {b : UInt8} {rest : Bytes} (h : IsText (b :: rest)) :
    ∃ c more, b :: rest = String.utf8EncodeChar c ++ more ∧ IsText more := by
  obtain ⟨s, hs⟩ := h
  rw [Utf8.encode] at hs
  rcases hchars : s.toList with _ | ⟨c, cs⟩
  · rw [hchars] at hs
    cases hs
  · rw [hchars, List.flatMap_cons] at hs
    exact ⟨c, _, hs.symm, String.ofList cs, by rw [Utf8.encode, String.toList_ofList]⟩

/-- Behind a byte of ASCII a text goes on. -/
theorem tail {b : UInt8} {rest : Bytes} (h : IsText (b :: rest)) (hb : b.toNat < 0x80) :
    IsText rest := by
  obtain ⟨c, more, hbytes, hmore⟩ := h.exists_char
  rcases Utf8.utf8EncodeChar_cases c with ⟨b', hone, -⟩ | hbeyond
  · rw [hone] at hbytes
    cases hbytes
    exact hmore
  · rcases hchar : String.utf8EncodeChar c with _ | ⟨b', bytes⟩
    · exact absurd hchar String.utf8EncodeChar_ne_nil
    · rw [hchar, List.cons_append] at hbytes
      have hlarge := hbeyond b' (by rw [hchar]; exact List.mem_cons_self)
      rw [← (List.cons.inj hbytes).1] at hlarge
      omega

theorem of_ascii_append {front back : Bytes} (hfront : ∀ b ∈ front, b.toNat < 0x80)
    (h : IsText (front ++ back)) : IsText back := by
  induction front with
  | nil => exact h
  | cons b front ih =>
    exact ih (fun c hc => hfront c (List.mem_cons_of_mem b hc))
      (h.tail (hfront b List.mem_cons_self))

end Utf8.IsText

namespace Json

open Utf8 (IsText)

/-- Blanks at the front of a text. -/
theorem exists_blanks {text : Bytes} (h : IsText text) :
    ∃ blanks : Blanks, text = blanks.bytes ++ skipBlanks text ∧ IsText (skipBlanks text) := by
  induction text with
  | nil => exact ⟨.none, rfl, h⟩
  | cons b text ih =>
    rw [skipBlanks]
    by_cases hb : isBlankByte b = true
    · obtain ⟨blanks, htext, hleft⟩ := ih (h.tail (ascii_of_isBlankByte hb))
      refine ⟨⟨b :: blanks.bytes, List.forall_mem_cons.mpr ⟨hb, blanks.areBlank⟩⟩, ?_, ?_⟩
      · rw [if_pos hb, List.cons_append, ← htext]
      · rwa [if_pos hb]
    · exact ⟨.none, by rw [if_neg hb]; rfl, by rwa [if_neg hb]⟩

/-! ## Numbers that are passed over -/

theorem exists_digit {b : UInt8} (h : isDigit b = true) :
    b.toNat < 0x80 ∧ ∃ d : Fin 10, b = Digits.byte d := by
  rw [isDigit, Bool.and_eq_true, decide_eq_true_iff, decide_eq_true_iff, UInt8.le_iff_toNat_le,
    UInt8.le_iff_toNat_le] at h
  obtain ⟨hleast, hgreatest⟩ : 48 ≤ b.toNat ∧ b.toNat ≤ 57 := h
  refine ⟨by omega, ⟨b.toNat - 48, by omega⟩, ?_⟩
  have hvalue : 48 + (b.toNat - 48) = b.toNat := by omega
  show b = UInt8.ofNat (48 + (b.toNat - 48))
  rw [hvalue, UInt8.ofNat_toNat]

theorem skipDigits_taken {text : Bytes} (htext : IsText text) (count : Nat) :
    ∃ (ds : List (Fin 10)) (left : Bytes), skipDigits count text = (count + ds.length, left)
      ∧ text = ds.map Digits.byte ++ left ∧ IsText left := by
  induction text generalizing count with
  | nil => exact ⟨[], [], rfl, rfl, htext⟩
  | cons b text ih =>
    rw [skipDigits]
    by_cases hb : isDigit b = true
    · obtain ⟨hascii, d, rfl⟩ := exists_digit hb
      obtain ⟨ds, left, hskip, htaken, hleft⟩ := ih (htext.tail hascii) (count + 1)
      refine ⟨d :: ds, left, ?_, ?_, hleft⟩
      · rw [if_pos hb, hskip, List.length_cons, Nat.add_assoc, Nat.add_comm 1]
      · rw [List.map_cons, List.cons_append, ← htaken]
    · exact ⟨[], b :: text, by rw [if_neg hb]; rfl, rfl, htext⟩

/-- One or more digits. -/
theorem digits_taken {b : UInt8} {text : Bytes} (htext : IsText (b :: text)) (hb : isDigit b = true)
    (count : Nat) :
    ∃ ds : Digits, b = Digits.byte ds.first ∧ b :: text = ds.bytes ++ (skipDigits count text).2
      ∧ IsText (skipDigits count text).2 := by
  obtain ⟨hascii, d, rfl⟩ := exists_digit hb
  obtain ⟨ds, left, hskip, htaken, hleft⟩ := skipDigits_taken (htext.tail hascii) count
  rw [hskip]
  exact ⟨⟨d, ds⟩, rfl, by rw [htaken]; rfl, hleft⟩

/-- An exponent without its sign. -/
def behindSign : Bytes → Bytes
  | [] => []
  | b :: more => if b = 0x2B || b = minusByte then more else b :: more

/-- Passes over the digits of an exponent. -/
def skipExponentDigits : Bytes → Except Fault Bytes
  | [] => .error (.here .invalidNumber [])
  | b :: rest => if isDigit b then .ok (skipDigits 0 rest).2 else .error (.here .invalidNumber rest)

theorem skipExponent_eq (text : Bytes) :
    skipExponent text = skipExponentDigits (behindSign text) := by
  rcases text with _ | ⟨b, more⟩
  · rfl
  · rfl

theorem skipExponentDigits_taken {text left : Bytes} (htext : IsText text)
    (h : skipExponentDigits text = .ok left) :
    ∃ ds : Digits, text = ds.bytes ++ left ∧ IsText left := by
  rcases text with _ | ⟨b, more⟩
  · cases h
  rw [skipExponentDigits] at h
  by_cases hb : isDigit b = true
  · rw [if_pos hb] at h
    cases h
    obtain ⟨ds, -, htaken, hleft⟩ := digits_taken htext hb 0
    exact ⟨ds, htaken, hleft⟩
  · rw [if_neg hb] at h
    cases h

/-- An exponent, from its letter on. -/
theorem skipExponent_taken {letter : UInt8} {text left : Bytes}
    (hletter : isExponentLetter letter = true) (htext : IsText text)
    (h : skipExponent text = .ok left) :
    ∃ e : Exponent, letter :: text = e.bytes ++ left ∧ IsText left := by
  have hlarge : ∃ large : Bool, letter = if large then 0x45 else 0x65 := by
    rw [isExponentLetter, Bool.or_eq_true, decide_eq_true_iff, decide_eq_true_iff] at hletter
    rcases hletter with rfl | rfl
    · exact ⟨false, rfl⟩
    · exact ⟨true, rfl⟩
  obtain ⟨large, rfl⟩ := hlarge
  rw [skipExponent_eq] at h
  rcases text with _ | ⟨b, more⟩
  · cases h
  rw [behindSign] at h
  by_cases hsign : (b = 0x2B || b = minusByte) = true
  · rw [if_pos hsign] at h
    rw [Bool.or_eq_true, decide_eq_true_iff, decide_eq_true_iff] at hsign
    rcases hsign with rfl | rfl
    · obtain ⟨ds, htaken, hleft⟩ := skipExponentDigits_taken (htext.tail (by decide)) h
      exact ⟨⟨large, some false, ds⟩, by rw [htaken]; rfl, hleft⟩
    · obtain ⟨ds, htaken, hleft⟩ := skipExponentDigits_taken (htext.tail (by decide)) h
      exact ⟨⟨large, some true, ds⟩, by rw [htaken]; rfl, hleft⟩
  · rw [if_neg hsign] at h
    obtain ⟨ds, htaken, hleft⟩ := skipExponentDigits_taken htext h
    exact ⟨⟨large, none, ds⟩, by rw [htaken]; rfl, hleft⟩

/-- What may follow the digits of a number, with or without a point, is an exponent or nothing. -/
theorem skipExponent?_taken {text left : Bytes} (htext : IsText text)
    (h : skipExponent? text = .ok left) :
    IsText left
      ∧ ∃ exponent, ∀ l : Literal, l.exponent = exponent → text = l.exponentBytes ++ left := by
  rcases text with _ | ⟨b, text⟩
  · cases h
    exact ⟨htext, none, fun l hl => by rw [Literal.exponentBytes, hl]; rfl⟩
  rw [skipExponent?] at h
  by_cases hletter : isExponentLetter b = true
  · rw [if_pos hletter] at h
    have hascii : b.toNat < 0x80 := by
      rw [isExponentLetter, Bool.or_eq_true, decide_eq_true_iff, decide_eq_true_iff] at hletter
      rcases hletter with rfl | rfl <;> decide
    obtain ⟨e, htaken, hleft⟩ := skipExponent_taken hletter (htext.tail hascii) h
    exact ⟨hleft, some e, fun l hl => by rw [Literal.exponentBytes, hl]; exact htaken⟩
  · rw [if_neg hletter] at h
    cases h
    exact ⟨htext, none, fun l hl => by rw [Literal.exponentBytes, hl]; rfl⟩

theorem skipAfterWhole_taken {text left : Bytes} (htext : IsText text)
    (h : skipAfterWhole text = .ok left) :
    IsText left ∧ ∃ fraction exponent, ∀ l : Literal, l.fraction = fraction →
      l.exponent = exponent → text = l.tailBytes ++ left := by
  have hnone : skipExponent? text = .ok left → IsText left ∧ ∃ fraction exponent, ∀ l : Literal,
      l.fraction = fraction → l.exponent = exponent → text = l.tailBytes ++ left := by
    intro h
    obtain ⟨hleft, exponent, hexponent⟩ := skipExponent?_taken htext h
    exact ⟨hleft, none, exponent,
      fun l hl he => by rw [Literal.tailBytes, hl]; exact hexponent l he⟩
  rcases text with _ | ⟨b, text⟩
  · exact hnone h
  rw [skipAfterWhole] at h
  by_cases hb : b = pointByte
  · subst hb
    obtain ⟨ds, behind, hskip, rfl, hbehind⟩ := skipDigits_taken (htext.tail (by decide)) 0
    rw [if_pos rfl, hskip] at h
    rcases ds with _ | ⟨d, ds⟩
    · cases h
    · rw [List.length_cons, ← Nat.add_assoc] at h
      obtain ⟨hleft, exponent, hexponent⟩ := skipExponent?_taken hbehind h
      refine ⟨hleft, some ⟨d, ds⟩, exponent, fun l hl he => ?_⟩
      rw [Literal.tailBytes, hl, hexponent l he]
      simp only [Digits.bytes, Digits.list, List.cons_append, List.append_assoc]
  · rw [if_neg hb] at h
    exact hnone h

/-- A number, from behind its sign on. -/
theorem skipNumber_taken {text left : Bytes} (htext : IsText text) (h : skipNumber text = .ok left)
    (negative : Bool) : IsText left ∧ ∃ l : Literal, l.negative = negative
      ∧ text = l.whole.bytes ++ (l.tailBytes ++ left) := by
  rcases text with _ | ⟨b, text⟩
  · cases h
  unfold skipNumber at h
  rcases hb : isDigit b with _ | _
  · simp only [hb] at h
    cases h
  simp only [hb, Bool.not_true, Bool.false_eq_true, if_false] at h
  by_cases hzero : b = 0x30
  · subst hzero
    have hbehind := htext.tail (by decide)
    have hskip : skipAfterWhole text = .ok left := by
      rcases text with _ | ⟨c, text⟩
      · exact h
      · simp only [if_true] at h
        split at h
        · cases h
        · exact h
    obtain ⟨hleft, fraction, exponent, htail⟩ := skipAfterWhole_taken hbehind hskip
    refine ⟨hleft, ⟨negative, ⟨0, []⟩, fraction, exponent, fun _ => rfl⟩, rfl, ?_⟩
    rw [← htail _ rfl rfl]
    rfl
  · rw [if_neg hzero] at h
    obtain ⟨ds, hfirst, htaken, hbehind⟩ := digits_taken htext hb 0
    obtain ⟨hleft, fraction, exponent, htail⟩ := skipAfterWhole_taken hbehind h
    refine ⟨hleft, ⟨negative, ds, fraction, exponent, fun hval => ?_⟩, rfl, ?_⟩
    · refine absurd ?_ hzero
      rw [hfirst, Digits.byte, hval]
      rfl
    · rw [← htail _ rfl rfl, htaken]

/-! ## Numbers that are read -/

theorem skipDigits_count (count : Nat) (text : Bytes) :
    skipDigits count text = (count + (skipDigits 0 text).1, (skipDigits 0 text).2) := by
  induction text generalizing count with
  | nil => rfl
  | cons b text ih =>
    rw [skipDigits, skipDigits]
    by_cases hb : isDigit b = true
    · rw [if_pos hb, if_pos hb, ih (count + 1), ih (0 + 1)]
      simp only [Nat.zero_add, Nat.add_assoc]
    · rw [if_neg hb, if_neg hb]
      rfl

/-- Digits are taken until there is none, or until the number is full. -/
theorem boundedDigits_eq {n count n' count' : Nat} {full : Bool} {text left : Bytes}
    (h : boundedDigits n count text = ((n', count'), full, left)) :
    skipDigits count text = skipDigits count' left ∧ count ≤ count'
      ∧ if full then count' < (skipDigits count' left).1
        else skipDigits count' left = (count', left) := by
  induction text generalizing n count with
  | nil =>
    cases h
    exact ⟨rfl, Nat.le_refl _, rfl⟩
  | cons b text ih =>
    rw [boundedDigits] at h
    rcases hb : isDigit b with _ | _
    · simp only [hb, Bool.not_false, if_true] at h
      cases h
      refine ⟨rfl, Nat.le_refl _, ?_⟩
      rw [if_neg Bool.false_ne_true, skipDigits, hb, if_neg Bool.false_ne_true]
    · simp only [hb, Bool.not_true, Bool.false_eq_true, if_false] at h
      split at h
      · cases h
        refine ⟨rfl, Nat.le_refl _, ?_⟩
        rw [if_pos rfl, skipDigits, if_pos hb, skipDigits_count]
        omega
      · obtain ⟨hskip, hcount, hend⟩ := ih h
        refine ⟨?_, by omega, hend⟩
        rw [skipDigits, if_pos hb, hskip]

theorem toReal_taken {x : Scaled} {n : Number} {text left : Bytes}
    (h : x.toReal text = .ok (n, left)) : left = text := by
  unfold Scaled.toReal at h
  split at h
  · cases h
    rfl
  · cases h

theorem wholeNumber_taken {positive : Bool} {whole : Nat} {n : Number} {text left : Bytes}
    (h : wholeNumber positive whole text = .ok (n, left)) : left = text := by
  unfold wholeNumber at h
  split at h
  · split at h
    · cases h
      rfl
    · exact toReal_taken h
  · split at h
    · exact toReal_taken h
    · split at h
      · cases h
        rfl
      · exact toReal_taken h

theorem exponentDigits_eq (n : Nat) (text : Bytes) :
    (∀ e left, exponentDigits n text = .ok (e, left) → (skipDigits 0 text).2 = left)
      ∧ ∀ rest, exponentDigits n text = .error rest →
        (skipDigits 0 text).2 = (skipDigits 0 rest).2 := by
  induction text generalizing n with
  | nil =>
    refine ⟨fun e left h => ?_, fun rest h => ?_⟩
    · cases h
      rfl
    · cases h
  | cons b text ih =>
    rw [exponentDigits, skipDigits]
    rcases hb : isDigit b with _ | _
    · simp only [Bool.not_false, if_true, Bool.false_eq_true, if_false]
      refine ⟨fun e left h => ?_, fun rest h => ?_⟩
      · cases h
        rfl
      · cases h
    · simp only [Bool.not_true, Bool.false_eq_true, if_false, if_true]
      rw [skipDigits_count]
      split
      · refine ⟨fun e left h => ?_, fun rest h => ?_⟩
        · cases h
        · cases h
          rfl
      · exact ih _

/-- Reads the digits of an exponent. -/
def Scaled.readExponentDigits (x : Scaled) (upwards : Bool) : Bytes → Except Fault (Number × Bytes)
  | [] => .error (.here .endInValue [])
  | b :: rest =>
    if !isDigit b then .error (.here .invalidNumber rest)
    else
      match exponentDigits (digitValue b) rest with
      | .ok (e, rest) =>
        { x with power := if upwards then x.power + e else x.power - e }.toReal rest
      | .error rest =>
        if x.significand ≠ 0 && upwards then .error (.here .numberOutOfRange rest)
        else .ok (.real (if x.positive then 0.0 else -0.0), (skipDigits 0 rest).2)

theorem readExponent_eq (x : Scaled) (text : Bytes) :
    ∃ upwards, x.readExponent text = x.readExponentDigits upwards (behindSign text) := by
  rcases text with _ | ⟨b, more⟩
  · exact ⟨true, rfl⟩
  unfold Scaled.readExponent
  by_cases hplus : b = 0x2B
  · refine ⟨true, ?_⟩
    simp only [behindSign, hplus, decide_true, Bool.true_or, if_true]
    rfl
  by_cases hminus : b = minusByte
  · refine ⟨false, ?_⟩
    simp only [behindSign, hminus, decide_true, Bool.or_true, if_true]
    rfl
  · refine ⟨true, ?_⟩
    simp only [behindSign, hplus, hminus, decide_false, Bool.or_self, Bool.false_eq_true, if_false]
    rfl

theorem skipExponentDigits_of_read {x : Scaled} {upwards : Bool} {n : Number} {text left : Bytes}
    (h : x.readExponentDigits upwards text = .ok (n, left)) :
    skipExponentDigits text = .ok left := by
  rcases text with _ | ⟨b, rest⟩
  · cases h
  rw [Scaled.readExponentDigits] at h
  rw [skipExponentDigits]
  rcases hb : isDigit b with _ | _
  · simp only [hb] at h
    cases h
  simp only [hb, Bool.not_true, Bool.false_eq_true, if_false] at h
  obtain ⟨hread, hfull⟩ := exponentDigits_eq (digitValue b) rest
  rw [if_pos rfl]
  rcases hexponent : exponentDigits (digitValue b) rest with rest' | ⟨e, rest'⟩
  · rw [hexponent] at h
    simp only at h
    split at h
    · cases h
    · cases h
      rw [hfull _ hexponent]
  · rw [hexponent] at h
    rw [hread _ _ hexponent, toReal_taken h]

/-- An exponent that is read is passed over. -/
theorem skipExponent_of_read {x : Scaled} {n : Number} {text left : Bytes}
    (h : x.readExponent text = .ok (n, left)) : skipExponent text = .ok left := by
  obtain ⟨upwards, heq⟩ := readExponent_eq x text
  rw [heq] at h
  rw [skipExponent_eq]
  exact skipExponentDigits_of_read h

/-- An exponent or nothing. -/
theorem skipExponent?_of_read {x : Scaled} {n : Number} {text left : Bytes}
    (h : x.readRest text = .ok (n, left)) : skipExponent? text = .ok left := by
  rcases text with _ | ⟨b, text⟩
  · rw [toReal_taken h]
    rfl
  rw [Scaled.readRest] at h
  rw [skipExponent?]
  by_cases hb : isExponentLetter b = true
  · rw [if_pos hb] at h ⊢
    exact skipExponent_of_read h
  · rw [if_neg hb] at h ⊢
    rw [toReal_taken h]

/-- A fraction that is read is passed over. -/
theorem skipFraction_of_read {x : Scaled} {n : Number} {text left : Bytes}
    (h : x.readFraction text = .ok (n, left)) : skipAfterWhole (pointByte :: text) = .ok left := by
  unfold Scaled.readFraction at h
  rcases hdigits : boundedDigits x.significand 0 text with ⟨⟨significand, count⟩, full, behind⟩
  obtain ⟨hskip, -, hend⟩ := boundedDigits_eq hdigits
  have hpoint : ∀ {k behind}, skipDigits 0 text = (k + 1, behind) →
      skipAfterWhole (pointByte :: text) = skipExponent? behind := by
    intro k behind hskip
    rw [skipAfterWhole, if_pos rfl, hskip]
    rfl
  simp only [hdigits] at h
  rcases full with _ | _
  · rw [if_neg Bool.false_ne_true] at hend
    rcases count with _ | count
    · simp only [Bool.false_eq_true, if_false, if_true] at h
      split at h
      · cases h
      · cases h
    · rw [hpoint (hskip.trans hend)]
      exact skipExponent?_of_read h
  · rw [if_pos rfl] at hend
    rw [skipDigits_count count behind] at hskip hend
    simp only [if_true] at h
    obtain ⟨k, hk⟩ : ∃ k, (skipDigits 0 behind).1 = k + 1 := ⟨(skipDigits 0 behind).1 - 1, by omega⟩
    rw [hk, ← Nat.add_assoc] at hskip
    rw [hpoint hskip]
    exact skipExponent?_of_read h

theorem skipAfterWhole_of_read {positive : Bool} {whole : Nat} {n : Number} {text left : Bytes}
    (h : afterWhole positive whole text = .ok (n, left)) : skipAfterWhole text = .ok left := by
  rcases text with _ | ⟨b, text⟩
  · rw [wholeNumber_taken h]
    rfl
  rw [afterWhole] at h
  by_cases hpoint : b = pointByte
  · subst hpoint
    exact skipFraction_of_read h
  rw [if_neg hpoint] at h
  rw [skipAfterWhole, if_neg hpoint, skipExponent?]
  by_cases hletter : isExponentLetter b = true
  · rw [if_pos hletter] at h ⊢
    exact skipExponent_of_read h
  · rw [if_neg hletter] at h ⊢
    rw [wholeNumber_taken h]

/-- A number that is read is passed over. -/
theorem skipNumber_of_number {positive : Bool} {n : Number} {text left : Bytes}
    (h : number positive text = .ok (n, left)) : skipNumber text = .ok left := by
  unfold number at h
  unfold skipNumber
  rcases text with _ | ⟨b, text⟩
  · cases h
  rcases hb : isDigit b with _ | _
  · simp only [hb] at h
    cases h
  simp only [hb, Bool.not_true, Bool.false_eq_true, if_false] at h ⊢
  by_cases hzero : b = 0x30
  · rw [if_pos hzero] at h ⊢
    rcases text with _ | ⟨c, text⟩
    · exact skipAfterWhole_of_read h
    rcases hc : isDigit c with _ | _
    · simp only [hc, Bool.false_eq_true, if_false] at h ⊢
      exact skipAfterWhole_of_read h
    · simp only [hc] at h
      cases h
  rw [if_neg hzero] at h ⊢
  rcases hdigits : boundedDigits (digitValue b) 1 text with ⟨⟨whole, count⟩, full, behind⟩
  obtain ⟨hskip, -, hend⟩ := boundedDigits_eq hdigits
  rw [skipDigits_count] at hskip
  simp only [hdigits] at h
  rcases full with _ | _
  · rw [if_neg Bool.false_ne_true] at hend
    rw [(Prod.mk.inj (hskip.trans hend)).2]
    exact skipAfterWhole_of_read h
  · -- the other digits are passed over too
    rw [skipDigits_count count] at hskip
    rw [(Prod.mk.inj hskip).2]
    simp only [Bool.not_true, Bool.false_eq_true, if_false] at h
    rcases hrest : (skipDigits 0 behind).2 with _ | ⟨c, rest⟩
    · simp only [hrest] at h
      rw [toReal_taken h]
      rfl
    · simp only [hrest] at h
      by_cases hpoint : c = pointByte
      · subst hpoint
        exact skipFraction_of_read h
      · rw [if_neg hpoint] at h
        rw [skipAfterWhole, if_neg hpoint]
        exact skipExponent?_of_read h

end Json

end BootTrust
