import BootTrust.Proofs.Accepted.Numbers
/-
Strings that a reader takes. They are passed over as well, since a surrogate pair is two escapes to
someone who does not look at surrogates (`skipString_escape`), and a string that is passed over can
be cut into pieces (`skipString_taken`). A piece is a character, so the bytes have to be a text.
Then the cuts lie between characters: each of them is next to a byte of ASCII, or between two
characters that stand for themselves.
-/

set_option autoImplicit false

namespace BootTrust.Json

open Utf8 (IsText)

/-! ## Strings that are passed over -/

theorem exists_hexDigit {b : UInt8} {n : Nat} (h : hexValue? b = some n) :
    b.toNat < 0x80 ∧ ∃ d : HexDigit, b = d.byte := by
  have hdigit : ∀ d : Fin 10, Digits.byte d = HexDigit.byte ⟨⟨d.val, by omega⟩, false⟩ := by decide
  have hletter : ∀ (k : Fin 6) (large : Bool), UInt8.ofNat ((if large then 0x41 else 0x61) + k.val)
      = HexDigit.byte ⟨⟨10 + k.val, by omega⟩, large⟩ := by decide
  have hfrom : ∀ (large : Bool) (first : Nat), (if large then 0x41 else 0x61) = first →
      first ≤ b.toNat → b.toNat < first + 6 → ∃ d : HexDigit, b = d.byte := by
    intro large first hfirst hleast hlt
    have hbyte := hletter ⟨b.toNat - first, by omega⟩ large
    simp only [hfirst, Nat.add_sub_cancel' hleast, UInt8.ofNat_toNat] at hbyte
    exact ⟨_, hbyte⟩
  rw [hexValue?] at h
  split at h
  · next hb =>
    obtain ⟨hascii, d, rfl⟩ := exists_digit hb
    exact ⟨hascii, _, hdigit d⟩
  split at h
  · next hb =>
    rw [Bool.and_eq_true, decide_eq_true_iff, decide_eq_true_iff, UInt8.le_iff_toNat_le,
      UInt8.le_iff_toNat_le] at hb
    obtain ⟨hleast, hgreatest⟩ : 0x41 ≤ b.toNat ∧ b.toNat ≤ 0x46 := hb
    exact ⟨by omega, hfrom true 0x41 rfl hleast (by omega)⟩
  split at h
  · next hb =>
    rw [Bool.and_eq_true, decide_eq_true_iff, decide_eq_true_iff, UInt8.le_iff_toNat_le,
      UInt8.le_iff_toNat_le] at hb
    obtain ⟨hleast, hgreatest⟩ : 0x61 ≤ b.toNat ∧ b.toNat ≤ 0x66 := hb
    exact ⟨by omega, hfrom false 0x61 rfl hleast (by omega)⟩
  · cases h

theorem hexEscape_taken {n : Nat} {text left : Bytes} (htext : IsText text)
    (h : hexEscape text = .ok (n, left)) :
    IsText left ∧ ∃ u : CodeUnit, text = u.bytes ++ left := by
  unfold hexEscape at h
  split at h
  · next a b c d rest =>
    rcases hfour : hexFour? a b c d with _ | m
    · rw [hfour] at h
      cases h
    rw [hfour] at h
    cases h
    rw [hexFour?] at hfour
    simp only [Option.bind_eq_bind, Option.bind_eq_some_iff] at hfour
    obtain ⟨_, hfirst, _, hsecond, _, hthird, _, hfourth, -⟩ := hfour
    obtain ⟨hascii₁, d₁, rfl⟩ := exists_hexDigit hfirst
    obtain ⟨hascii₂, d₂, rfl⟩ := exists_hexDigit hsecond
    obtain ⟨hascii₃, d₃, rfl⟩ := exists_hexDigit hthird
    obtain ⟨hascii₄, d₄, rfl⟩ := exists_hexDigit hfourth
    exact ⟨(((htext.tail hascii₁).tail hascii₂).tail hascii₃).tail hascii₄, ⟨d₁, d₂, d₃, d₄⟩, rfl⟩
  · cases h

/-- A letter with a meaning is the letter of a shorthand. -/
theorem exists_shorthand {b : UInt8} (h : (letterEscape? b).isSome = true) :
    b.toNat < 0x80 ∧ ∃ e : Shorthand, String.utf8EncodeChar e.letter = [b] := by
  unfold letterEscape? at h
  -- one letter after the other
  split at h
  · next hb =>
    simp only [Bool.or_eq_true, decide_eq_true_iff] at hb
    rcases hb with (rfl | rfl) | rfl
    · exact ⟨by decide, .quote, rfl⟩
    · exact ⟨by decide, .backslash, rfl⟩
    · exact ⟨by decide, .slash, rfl⟩
  split at h
  · next hb => exact ⟨by rw [hb]; decide, .backspace, by rw [hb]; rfl⟩
  split at h
  · next hb => exact ⟨by rw [hb]; decide, .formFeed, by rw [hb]; rfl⟩
  split at h
  · next hb => exact ⟨by rw [hb]; decide, .lineFeed, by rw [hb]; rfl⟩
  split at h
  · next hb => exact ⟨by rw [hb]; decide, .carriageReturn, by rw [hb]; rfl⟩
  split at h
  · next hb => exact ⟨by rw [hb]; decide, .tab, by rw [hb]; rfl⟩
  · cases h

/-- An escape is a piece of a string. -/
theorem skipEscape_taken {text left : Bytes} (htext : IsText text)
    (h : skipEscape text = .ok left) :
    IsText left ∧ ∃ p : Piece, backslashByte :: text = p.bytes ++ left := by
  rcases text with _ | ⟨b, text⟩
  · cases h
  rw [skipEscape] at h
  by_cases hletter : (letterEscape? b).isSome = true
  · rw [if_pos hletter] at h
    cases h
    obtain ⟨hascii, e, he⟩ := exists_shorthand hletter
    exact ⟨htext.tail hascii, .shorthand e, by rw [Piece.bytes, he]; rfl⟩
  rw [if_neg hletter] at h
  by_cases hunit : b = 0x75
  · subst hunit
    rw [if_pos rfl] at h
    obtain ⟨⟨n, left'⟩, hhex, rfl⟩ := Steps.map_eq_ok_iff.mp h
    obtain ⟨hleft, u, rfl⟩ := hexEscape_taken (htext.tail (by decide)) hhex
    exact ⟨hleft, .unit u, rfl⟩
  · rw [if_neg hunit] at h
    cases h

/-- A character that is not plain is one byte, and this does not stand for itself. -/
theorem utf8EncodeChar_of_not_isPlainChar {c : Char} (h : ¬ isPlainChar c = true) :
    ∃ b : UInt8, String.utf8EncodeChar c = [b] ∧ b.toNat < 0x80
      ∧ (b = quoteByte ∨ b = backslashByte ∨ b < 0x20) := by
  have hcases : c = '"' ∨ c = '\\' ∨ c.toNat < 0x20 := by
    rw [isPlainChar, Bool.and_eq_true, Bool.and_eq_true, decide_eq_true_iff, decide_eq_true_iff,
      decide_eq_true_iff] at h
    by_cases hquote : c = '"'
    · exact Or.inl hquote
    by_cases hbackslash : c = '\\'
    · exact Or.inr (Or.inl hbackslash)
    · exact Or.inr (Or.inr (Nat.not_le.mp fun hleast => h ⟨⟨hquote, hbackslash⟩, hleast⟩))
  rcases hcases with rfl | rfl | hcontrol
  · exact ⟨quoteByte, rfl, by decide, Or.inl rfl⟩
  · exact ⟨backslashByte, rfl, by decide, Or.inr (Or.inl rfl)⟩
  · have hall : ∀ n, n < 0x20 → String.utf8EncodeChar (Char.ofNat n) = [UInt8.ofNat n]
        ∧ (UInt8.ofNat n).toNat < 0x80 ∧ UInt8.ofNat n < 0x20 := by
      decide
    obtain ⟨hbytes, hascii, hsmall⟩ := hall c.toNat hcontrol
    rw [Char.ofNat_toNat] at hbytes
    exact ⟨_, hbytes, hascii, Or.inr (Or.inr hsmall)⟩

/-- A string that is passed over is pieces up to the closing quotation mark. -/
theorem skipString_taken {text left : Bytes} (htext : IsText text)
    (h : skipString text = .ok left) :
    IsText left ∧ ∃ q : Quoted, text = q.flatMap Piece.bytes ++ quoteByte :: left := by
  induction hlength : text.length using Nat.strongRecOn generalizing text with
  | ind length ih =>
    have hnext : ∀ {more : Bytes} (p : Piece), text = p.bytes ++ more → more.length < length →
        IsText more → skipString more = .ok left →
        IsText left ∧ ∃ q : Quoted, text = q.flatMap Piece.bytes ++ quoteByte :: left := by
      intro more p htaken hshorter hmore hskip
      obtain ⟨hleft, q, hq⟩ := ih more.length hshorter hmore hskip rfl
      exact ⟨hleft, p :: q, by rw [htaken, hq, List.flatMap_cons, List.append_assoc]⟩
    rcases text with _ | ⟨b, text⟩
    · rw [skipString] at h
      cases h
    obtain ⟨c, more, hchar, hmore⟩ := htext.exists_char
    by_cases hplain : isPlainChar c = true
    · have hpositive := List.length_pos_iff.mpr (String.utf8EncodeChar_ne_nil (c := c))
      have hshorter : more.length < length := by
        rw [← hlength, hchar, List.length_append]
        omega
      rw [hchar, skipString_bare (isBare_of_isPlainChar hplain)] at h
      exact hnext (.plain c hplain) hchar hshorter hmore h
    · obtain ⟨b', hbytes, -, hcases⟩ := utf8EncodeChar_of_not_isPlainChar hplain
      rw [hbytes] at hchar
      obtain ⟨rfl, rfl⟩ := List.cons.inj hchar
      rw [skipString] at h
      rcases hcases with rfl | rfl | hcontrol
      · rw [if_pos rfl] at h
        cases h
        exact ⟨hmore, [], rfl⟩
      · rw [if_neg (by decide), if_pos rfl] at h
        split at h
        · cases h
        · next behind hescape =>
          obtain ⟨hbehind, p, hp⟩ := skipEscape_taken hmore hescape
          have hshorter := skipEscape_length hescape
          rw [List.length_cons] at hlength
          exact hnext p hp (by omega) hbehind h
      · have hother : b ≠ quoteByte ∧ b ≠ backslashByte := by
          constructor
          · rintro rfl
            exact absurd hcontrol (by decide)
          · rintro rfl
            exact absurd hcontrol (by decide)
        rw [if_neg hother.1, if_neg hother.2, if_pos hcontrol] at h
        cases h

/-! ## Strings that are read -/

/-- What follows `\u` is one code unit, or it is two. -/
theorem unicodeEscape_eq_ok {text bytes left : Bytes} (h : unicodeEscape text = .ok (bytes, left)) :
    (∃ n, hexEscape text = .ok (n, left))
      ∨ ∃ n m more, hexEscape text = .ok (n, backslashByte :: 0x75 :: more)
        ∧ hexEscape more = .ok (m, left) := by
  unfold unicodeEscape at h
  obtain ⟨⟨n, rest⟩, hfirst, h⟩ := Steps.bind_eq_ok_iff.mp h
  simp only at h
  split at h
  · cases h
  split at h
  · cases h
    exact Or.inl ⟨n, hfirst⟩
  split at h
  · cases h
  split at h
  · cases h
  next b rest hb =>
    split at h
    · cases h
    split at h
    · cases h
    next u more hu =>
      obtain ⟨⟨m, rest⟩, hsecond, h⟩ := Steps.bind_eq_ok_iff.mp h
      simp only at h
      split at h
      · obtain ⟨-, rfl⟩ := Prod.mk.inj (Except.ok.inj h)
        rw [Decidable.not_not.mp hb, Decidable.not_not.mp hu] at hfirst
        exact Or.inr ⟨n, m, more, hfirst, hsecond⟩
      · cases h

/-- An escape that is read is passed over, and so is the second half of a pair. -/
theorem skipString_escape {text bytes left : Bytes} (h : escape text = .ok (bytes, left)) :
    skipString (backslashByte :: text) = skipString left := by
  have hunit : ∀ {more left : Bytes} {n : Nat}, hexEscape more = .ok (n, left) →
      skipString (backslashByte :: 0x75 :: more) = skipString left := by
    intro more left n hhex
    have hletter : letterEscape? 0x75 = none := by decide
    refine skipString_backslash ?_
    rw [skipEscape, hletter, hhex]
    rfl
  rcases text with _ | ⟨b, text⟩
  · cases h
  rw [escape] at h
  rcases hletter : letterEscape? b with _ | c
  · rw [hletter] at h
    by_cases hb : b = 0x75
    · subst hb
      simp only [if_true] at h
      rcases unicodeEscape_eq_ok h with ⟨n, hone⟩ | ⟨n, m, more, hfirst, hsecond⟩
      · exact hunit hone
      · rw [hunit hfirst, hunit hsecond]
    · simp only [if_neg hb] at h
      cases h
  · rw [hletter] at h
    cases h
    refine skipString_backslash ?_
    rw [skipEscape, hletter]
    rfl

theorem skipString_of_content {text content left : Bytes}
    (h : stringContent text = .ok (content, left)) : skipString text = .ok left := by
  fun_induction stringContent text generalizing content with
  | case1 => cases h
  | case2 rest =>
    cases h
    rw [skipString, if_pos rfl]
  | case3 => cases h
  | case4 rest bytes behind hescape _ hshorter ih =>
    obtain ⟨⟨more, left'⟩, hmore, h⟩ := Steps.bind_eq_ok_iff.mp h
    cases h
    rw [skipString_escape hescape, ih hmore]
  | case5 => cases h
  | case6 b rest hquote hbackslash hcontrol ih =>
    obtain ⟨⟨more, left'⟩, hmore, h⟩ := Steps.bind_eq_ok_iff.mp h
    cases h
    rw [skipString, if_neg hquote, if_neg hbackslash, if_neg hcontrol, ih hmore]

/-- A string that is read is passed over. -/
theorem skipString_of_string {text left : Bytes} {s : String} (h : string text = .ok (s, left)) :
    skipString text = .ok left := by
  rw [string] at h
  obtain ⟨⟨content, left'⟩, hcontent, h⟩ := Steps.bind_eq_ok_iff.mp h
  rcases hdecode : Utf8.decode? content with _ | s'
  · simp only [hdecode] at h
    cases h
  · simp only [hdecode] at h
    cases h
    exact skipString_of_content hcontent

end BootTrust.Json
