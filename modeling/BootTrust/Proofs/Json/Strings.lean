import BootTrust.Json.Scan
/-
Strings are read back as they were written. The writer escapes byte by byte and does not know
where a character ends; the reader undoes one escape after the other and decodes the bytes at the
very end. So the law of a string comes down to a law of one byte, `stringContent_escapeByte`, and
to `Utf8.decode?_encode`.

The second matter is that what is written is a text. Escapes are ASCII, and a byte of a longer
character is written as it is, so a character is written as a text of its own (`isText_escapeChar`).
-/

set_option autoImplicit false

namespace BootTrust

namespace Utf8

/-- Whether some bytes are the encoding of a text. -/
def IsText (bytes : Bytes) : Prop :=
  ∃ s, encode s = bytes

namespace IsText

theorem nil : IsText [] :=
  ⟨"", rfl⟩

theorem encode (s : String) : IsText (encode s) :=
  ⟨s, rfl⟩

theorem append {front back : Bytes} (hfront : IsText front) (hback : IsText back) :
    IsText (front ++ back) := by
  obtain ⟨s, rfl⟩ := hfront
  obtain ⟨t, rfl⟩ := hback
  exact ⟨s ++ t, encode_append s t⟩

/-- A byte of ASCII is a text. -/
theorem ascii {b : UInt8} (h : b.toNat < 0x80) : IsText [b] := by
  have hvalid : b.toNat.isValidChar := by
    simp only [Nat.isValidChar]
    omega
  refine ⟨String.ofList [Char.ofNat b.toNat], ?_⟩
  have hval : (Char.ofNat b.toNat).val.toNat = b.toNat := by
    rw [Char.ofNat, dif_pos hvalid]
    rfl
  rw [Utf8.encode, String.toList_ofList, List.flatMap_singleton, String.utf8EncodeChar, hval,
    if_pos (by omega)]
  simp

theorem cons {b : UInt8} {bytes : Bytes} (hb : b.toNat < 0x80) (h : IsText bytes) :
    IsText (b :: bytes) :=
  (ascii hb).append h

theorem of_ascii {bytes : Bytes} (h : ∀ b ∈ bytes, b.toNat < 0x80) : IsText bytes := by
  induction bytes with
  | nil => exact nil
  | cons b bytes ih =>
    exact cons (h b List.mem_cons_self) (ih fun c hc => h c (List.mem_cons_of_mem b hc))

/-- A text is read back from its bytes. -/
theorem decode? {bytes : Bytes} (h : IsText bytes) :
    ∃ s, Utf8.decode? bytes = some s ∧ Utf8.encode s = bytes := by
  obtain ⟨s, rfl⟩ := h
  exact ⟨s, decode?_encode s, rfl⟩

end IsText

/-- A character of one byte is ASCII, and all bytes of a longer one are beyond it. -/
theorem utf8EncodeChar_cases (c : Char) :
    (∃ b : UInt8, String.utf8EncodeChar c = [b] ∧ b.toNat < 0x80)
      ∨ ∀ b ∈ String.utf8EncodeChar c, 0x80 ≤ b.toNat := by
  unfold String.utf8EncodeChar
  generalize c.val.toNat = v
  have hbyte : ∀ k, k < 256 → (UInt8.ofNat k).toNat = k := fun k hk => by
    simp [Nat.mod_eq_of_lt hk]
  have hmore : ∀ k, (UInt8.ofNat (k % 64 + 128)).toNat = k % 64 + 128 := fun k =>
    hbyte _ (by omega)
  -- one byte, or a leading one and up to three that continue it
  by_cases h1 : v ≤ 127
  · refine Or.inl ⟨UInt8.ofNat v, by rw [if_pos h1], ?_⟩
    rw [hbyte v (by omega)]
    omega
  right
  by_cases h2 : v ≤ 2047
  · have hlead := hbyte (v / 64 % 32 + 192) (by omega)
    simp only [h1, h2, if_true, if_false, List.forall_mem_cons, hlead, hmore]
    exact ⟨by omega, by omega, by simp⟩
  by_cases h3 : v ≤ 65535
  · have hlead := hbyte (v / 4096 % 16 + 224) (by omega)
    simp only [h1, h2, h3, if_true, if_false, List.forall_mem_cons, hlead, hmore]
    exact ⟨by omega, by omega, by omega, by simp⟩
  · have hlead := hbyte (v / 262144 % 8 + 240) (by omega)
    simp only [h1, h2, h3, if_false, List.forall_mem_cons, hlead, hmore]
    exact ⟨by omega, by omega, by omega, by omega, by simp⟩

end Utf8

namespace Json

/-- An escape stands for the bytes that it is read as, in front of what follows it. -/
theorem stringContent_escape {rest left bytes : Bytes} (h : escape rest = .ok (bytes, left)) :
    stringContent (backslashByte :: rest)
      = (stringContent left).map fun (more, left) => (bytes ++ more, left) := by
  have hquote : ¬ backslashByte = quoteByte := by decide
  rw [stringContent, if_neg hquote, if_pos rfl]
  split
  · next fault hfault =>
    rw [h] at hfault
    simp at hfault
  · next bytes' left' hok =>
    rw [h] at hok
    cases hok
    rcases stringContent left with fault | ⟨more, left⟩
    · rfl
    · rfl

theorem stringContent_letter {letter b : UInt8} (h : letterEscape? letter = some b) (rest : Bytes) :
    stringContent ([backslashByte, letter] ++ rest)
      = (stringContent rest).map fun (more, left) => (b :: more, left) := by
  have hescape : escape (letter :: rest) = .ok ([b], rest) := by
    rw [escape, h]
  exact stringContent_escape hescape

/-- The number of a control byte, from the digits that are written for it, and the byte again. -/
theorem control_digits : ∀ n, n < 0x20 →
    hexFour? 0x30 0x30 (hexDigit (n / 16)) (hexDigit (n % 16)) = some n
      ∧ isLowSurrogate n = false ∧ isHighSurrogate n = false ∧ charBytes n = [UInt8.ofNat n] := by
  decide

theorem escape_control {b : UInt8} (h : b < 0x20) (rest : Bytes) :
    escape (0x75 :: 0x30 :: 0x30 :: hexDigit (b.toNat / 16) :: hexDigit (b.toNat % 16) :: rest)
      = .ok ([b], rest) := by
  obtain ⟨hdigits, hlow, hhigh, hbytes⟩ := control_digits b.toNat h
  have hletter : letterEscape? 0x75 = none := by decide
  rw [escape, hletter]
  simp only [if_true, unicodeEscape, hexEscape, hdigits, bind, Except.bind, hlow, hhigh, hbytes]
  rw [UInt8.ofNat_toNat]
  rfl

/-- What an escaped byte is read as: the byte, in front of what follows. -/
theorem stringContent_escapeByte (b : UInt8) (rest : Bytes) :
    stringContent (escapeByte b ++ rest)
      = (stringContent rest).map fun (more, left) => (b :: more, left) := by
  unfold escapeByte
  -- seven bytes have a letter
  split
  · next h =>
    rw [h]
    exact stringContent_letter (by decide) rest
  split
  · next h =>
    rw [h]
    exact stringContent_letter (by decide) rest
  split
  · next h =>
    rw [h]
    exact stringContent_letter (by decide) rest
  split
  · next h =>
    rw [h]
    exact stringContent_letter (by decide) rest
  split
  · next h =>
    rw [h]
    exact stringContent_letter (by decide) rest
  split
  · next h =>
    rw [h]
    exact stringContent_letter (by decide) rest
  split
  · next h =>
    rw [h]
    exact stringContent_letter (by decide) rest
  -- the other control bytes are written by their number, all others as they are
  split
  · next h => exact stringContent_escape (escape_control h rest)
  · next hquote hbackslash _ _ _ _ _ hcontrol =>
    rw [List.singleton_append, stringContent, if_neg hquote, if_neg hbackslash, if_neg hcontrol]
    rcases stringContent rest with fault | ⟨more, left⟩
    · rfl
    · rfl

/-- The content of a string is read up to the closing quotation mark. -/
theorem stringContent_flatMap_escapeByte (content rest : Bytes) :
    stringContent (content.flatMap escapeByte ++ quoteByte :: rest) = .ok (content, rest) := by
  induction content with
  | nil =>
    rw [List.flatMap_nil, List.nil_append, stringContent, if_pos rfl]
  | cons b content ih =>
    rw [List.flatMap_cons, List.append_assoc, stringContent_escapeByte, ih]
    rfl

/-- A string that was written is read back, and nothing behind it is touched. -/
theorem string_encode (s : String) (rest : Bytes) :
    string ((Utf8.encode s).flatMap escapeByte ++ quoteByte :: rest) = .ok (s, rest) := by
  unfold string
  rw [stringContent_flatMap_escapeByte]
  simp only [bind, Except.bind, Utf8.decode?_encode]
  rfl

/-! ## What is written is a text -/

theorem hexDigit_lt : ∀ n, n < 16 → (hexDigit n).toNat < 0x80 := by
  decide

/-- A byte of ASCII is escaped in ASCII. -/
theorem escapeByte_ascii {b : UInt8} (h : b.toNat < 0x80) : ∀ c ∈ escapeByte b, c.toNat < 0x80 := by
  have hhigh := hexDigit_lt (b.toNat / 16) (by omega)
  have hlow := hexDigit_lt (b.toNat % 16) (by omega)
  have hletter : ∀ {letter : UInt8}, letter.toNat < 0x80 →
      ∀ c ∈ [backslashByte, letter], c.toNat < 0x80 :=
    fun h => List.forall_mem_cons.mpr ⟨by decide, List.forall_mem_singleton.mpr h⟩
  unfold escapeByte
  split
  · exact hletter (by decide)
  split
  · exact hletter (by decide)
  split
  · exact hletter (by decide)
  split
  · exact hletter (by decide)
  split
  · exact hletter (by decide)
  split
  · exact hletter (by decide)
  split
  · exact hletter (by decide)
  split
  · simp only [List.forall_mem_cons]
    exact ⟨by decide, by decide, by decide, by decide, hhigh, hlow, by simp⟩
  · simpa using h

/-- A byte beyond ASCII is written as it is. -/
theorem escapeByte_beyond {b : UInt8} (h : 0x80 ≤ b.toNat) : escapeByte b = [b] := by
  have hne : ∀ c : UInt8, c.toNat < 0x80 → b ≠ c := by
    rintro c hc rfl
    omega
  have hcontrol : ¬ b < 0x20 := by
    rw [UInt8.lt_iff_toNat_lt]
    exact Nat.not_lt.mpr (Nat.le_trans (by decide) h)
  unfold escapeByte
  rw [if_neg (hne _ (by decide)), if_neg (hne _ (by decide)), if_neg (hne _ (by decide)),
    if_neg (hne _ (by decide)), if_neg (hne _ (by decide)), if_neg (hne _ (by decide)),
    if_neg (hne _ (by decide)), if_neg hcontrol]

theorem flatMap_escapeByte_beyond {bytes : Bytes} (h : ∀ b ∈ bytes, 0x80 ≤ b.toNat) :
    bytes.flatMap escapeByte = bytes := by
  induction bytes with
  | nil => rfl
  | cons b bytes ih =>
    rw [List.flatMap_cons, escapeByte_beyond (h b List.mem_cons_self),
      ih fun c hc => h c (List.mem_cons_of_mem b hc)]
    rfl

theorem isText_escapeChar (c : Char) :
    Utf8.IsText ((String.utf8EncodeChar c).flatMap escapeByte) := by
  rcases Utf8.utf8EncodeChar_cases c with ⟨b, hb, hascii⟩ | hbeyond
  · rw [hb, List.flatMap_singleton]
    exact Utf8.IsText.of_ascii (escapeByte_ascii hascii)
  · rw [flatMap_escapeByte_beyond hbeyond]
    refine ⟨String.ofList [c], ?_⟩
    rw [Utf8.encode, String.toList_ofList, List.flatMap_singleton]

theorem isText_stringBytes (s : String) : Utf8.IsText (stringBytes s) := by
  have hcontent : Utf8.IsText ((Utf8.encode s).flatMap escapeByte) := by
    unfold Utf8.encode
    rw [List.flatMap_assoc]
    induction s.toList with
    | nil => exact Utf8.IsText.nil
    | cons c cs ih =>
      rw [List.flatMap_cons]
      exact (isText_escapeChar c).append ih
  exact Utf8.IsText.cons (by decide) (hcontent.append (Utf8.IsText.ascii (by decide)))

end Json

end BootTrust
