import BootTrust.Json.Skip
import BootTrust.Json.Spelling
import BootTrust.Proofs.Json.Strings
import BootTrust.Proofs.Steps
/-
Strings as they are written. A reader takes a string piece by piece. A character that stands for
itself is taken byte by byte, and so is an escape of one letter. Four hexadecimal digits are taken
at once, and if they are the first half of a surrogate pair, then so are the four that have to
follow. What has been read in the end is the text that the pieces stand for, and they do stand for
one, since a half without the other is refused (`string_quoted`).

Whoever only passes over a string does not look at surrogates, so every string can be
passed over (`skipString_quoted`). And a printed text is a string with one piece for each
character (`Quoted.ofText`).
-/

set_option autoImplicit false

namespace BootTrust

/-- A character of one byte has the number of this byte. -/
theorem Utf8.toNat_of_utf8EncodeChar {c : Char} {b : UInt8} (h : String.utf8EncodeChar c = [b]) :
    c.toNat = b.toNat := by
  have hsize : c.toNat = c.val.toNat := rfl
  unfold String.utf8EncodeChar at h
  by_cases hone : c.val.toNat ≤ 127
  · rw [if_pos hone] at h
    rw [← List.singleton_inj.mp h, hsize, UInt8.toNat_ofNat']
    omega
  · -- all others have more than one byte
    rw [if_neg hone] at h
    split at h
    · simp at h
    · split at h
      · simp at h
      · simp at h

namespace Json

/-! ## Bytes that stand for themselves -/

/-- Whether a byte stands for itself in a string. -/
def IsBare (b : UInt8) : Prop :=
  b ≠ quoteByte ∧ b ≠ backslashByte ∧ ¬ b < 0x20

/-- The bytes of a plain character stand for themselves. -/
theorem isBare_of_isPlainChar {c : Char} (h : isPlainChar c = true) :
    ∀ b ∈ String.utf8EncodeChar c, IsBare b := by
  have hcontrol : ∀ b : UInt8, 0x20 ≤ b.toNat → ¬ b < 0x20 := by
    intro b hb
    rw [UInt8.lt_iff_toNat_lt]
    exact Nat.not_lt.mpr hb
  simp only [isPlainChar, Bool.and_eq_true, decide_eq_true_eq] at h
  obtain ⟨⟨hquote, hbackslash⟩, hleast⟩ := h
  intro b hb
  rcases Utf8.utf8EncodeChar_cases c with ⟨b', hbytes, -⟩ | hbeyond
  · rw [hbytes, List.mem_singleton] at hb
    obtain rfl := hb
    have hnat := Utf8.toNat_of_utf8EncodeChar hbytes
    refine ⟨?_, ?_, hcontrol b (hnat ▸ hleast)⟩
    · rintro rfl
      exact hquote (Char.toNat_inj.mp hnat)
    · rintro rfl
      exact hbackslash (Char.toNat_inj.mp hnat)
  · have hlarge := hbeyond b hb
    refine ⟨?_, ?_, hcontrol b (Nat.le_trans (by decide) hlarge)⟩
    · rintro rfl
      exact absurd hlarge (by decide)
    · rintro rfl
      exact absurd hlarge (by decide)

theorem stringContent_bare {bytes : Bytes} (h : ∀ b ∈ bytes, IsBare b) (rest : Bytes) :
    stringContent (bytes ++ rest)
      = (stringContent rest).map fun (more, left) => (bytes ++ more, left) := by
  induction bytes with
  | nil =>
    rw [List.nil_append]
    rcases stringContent rest with fault | ⟨more, left⟩
    · rfl
    · rfl
  | cons b bytes ih =>
    obtain ⟨hquote, hbackslash, hcontrol⟩ := h b List.mem_cons_self
    rw [List.cons_append, stringContent, if_neg hquote, if_neg hbackslash, if_neg hcontrol,
      ih fun c hc => h c (List.mem_cons_of_mem b hc)]
    rcases stringContent rest with fault | ⟨more, left⟩
    · rfl
    · rfl

theorem skipString_bare {bytes : Bytes} (h : ∀ b ∈ bytes, IsBare b) (rest : Bytes) :
    skipString (bytes ++ rest) = skipString rest := by
  induction bytes with
  | nil => rfl
  | cons b bytes ih =>
    obtain ⟨hquote, hbackslash, hcontrol⟩ := h b List.mem_cons_self
    rw [List.cons_append, skipString, if_neg hquote, if_neg hbackslash, if_neg hcontrol,
      ih fun c hc => h c (List.mem_cons_of_mem b hc)]

/-! ## Escapes -/

/-- The letter of a shorthand is one byte, and so is what it stands for. It is not the letter of a
code unit. -/
theorem Shorthand.bytes_eq (escape : Shorthand) : ∃ letter b, letter ≠ 0x75
    ∧ String.utf8EncodeChar escape.letter = [letter] ∧ String.utf8EncodeChar escape.char = [b]
    ∧ letterEscape? letter = some b := by
  cases escape with
  | quote => exact ⟨0x22, 0x22, by decide, rfl, rfl, by decide⟩
  | backslash => exact ⟨0x5C, 0x5C, by decide, rfl, rfl, by decide⟩
  | slash => exact ⟨0x2F, 0x2F, by decide, rfl, rfl, by decide⟩
  | backspace => exact ⟨0x62, 0x08, by decide, rfl, rfl, by decide⟩
  | formFeed => exact ⟨0x66, 0x0C, by decide, rfl, rfl, by decide⟩
  | lineFeed => exact ⟨0x6E, 0x0A, by decide, rfl, rfl, by decide⟩
  | carriageReturn => exact ⟨0x72, 0x0D, by decide, rfl, rfl, by decide⟩
  | tab => exact ⟨0x74, 0x09, by decide, rfl, rfl, by decide⟩

theorem HexDigit.hexValue?_byte (d : HexDigit) : hexValue? d.byte = some d.value.val := by
  have hall : ∀ (v : Fin 16) (large : Bool), hexValue? (HexDigit.byte ⟨v, large⟩) = some v.val := by
    decide
  exact hall d.value d.large

theorem CodeUnit.hexEscape_bytes (u : CodeUnit) (rest : Bytes) :
    hexEscape (u.bytes ++ rest) = .ok (u.value, rest) := by
  have hfour : hexFour? u.a.byte u.b.byte u.c.byte u.d.byte = some u.value := by
    rw [hexFour?]
    simp only [HexDigit.hexValue?_byte]
    rfl
  show hexEscape (u.a.byte :: u.b.byte :: u.c.byte :: u.d.byte :: rest) = _
  rw [hexEscape, hfour]

theorem escape_unit (u : CodeUnit) (rest : Bytes) :
    escape (0x75 :: (u.bytes ++ rest)) = unicodeEscape (u.bytes ++ rest) := by
  have hletter : letterEscape? 0x75 = none := by decide
  rw [escape, hletter]
  rfl

/-- A code unit that is no surrogate is a character. -/
theorem unicodeEscape_single {u : CodeUnit} (hlow : isLowSurrogate u.value = false)
    (hhigh : isHighSurrogate u.value = false) (rest : Bytes) :
    unicodeEscape (u.bytes ++ rest) = .ok (charBytes u.value, rest) := by
  rw [unicodeEscape, u.hexEscape_bytes]
  simp only [bind, Except.bind, hlow, hhigh]
  rfl

/-- A second half cannot come first. -/
theorem unicodeEscape_low {u : CodeUnit} (hlow : isLowSurrogate u.value = true) (rest : Bytes) :
    ∃ fault, unicodeEscape (u.bytes ++ rest) = .error fault := by
  rw [unicodeEscape, u.hexEscape_bytes]
  simp only [bind, Except.bind, hlow]
  exact ⟨_, rfl⟩

/-- Two halves are a character. -/
theorem unicodeEscape_pair {u v : CodeUnit} (hlow : isLowSurrogate u.value = false)
    (hhigh : isHighSurrogate u.value = true) (hnext : isLowSurrogate v.value = true)
    (rest : Bytes) :
    unicodeEscape (u.bytes ++ ((Piece.unit v).bytes ++ rest))
      = .ok (charBytes (pairNumber u.value v.value), rest) := by
  show unicodeEscape (u.bytes ++ backslashByte :: 0x75 :: (v.bytes ++ rest)) = _
  rw [unicodeEscape, u.hexEscape_bytes]
  simp only [bind, Except.bind, hlow, hhigh, v.hexEscape_bytes, hnext]
  rfl

/-- A first half has to be followed by a second one. -/
theorem unicodeEscape_lone {u v : CodeUnit} (hlow : isLowSurrogate u.value = false)
    (hhigh : isHighSurrogate u.value = true) (hnext : isLowSurrogate v.value = false)
    (rest : Bytes) :
    ∃ fault, unicodeEscape (u.bytes ++ ((Piece.unit v).bytes ++ rest)) = .error fault := by
  show ∃ fault, unicodeEscape (u.bytes ++ backslashByte :: 0x75 :: (v.bytes ++ rest)) = .error fault
  rw [unicodeEscape, u.hexEscape_bytes]
  simp only [bind, Except.bind, hlow, hhigh, v.hexEscape_bytes, hnext]
  exact ⟨_, rfl⟩

theorem unicodeEscape_cut {u : CodeUnit} (hlow : isLowSurrogate u.value = false)
    (hhigh : isHighSurrogate u.value = true) {rest : Bytes}
    (hnext : ∀ more, rest ≠ backslashByte :: 0x75 :: more) :
    ∃ fault, unicodeEscape (u.bytes ++ rest) = .error fault := by
  rw [unicodeEscape, u.hexEscape_bytes]
  simp only [bind, Except.bind, hlow, hhigh]
  rcases rest with _ | ⟨b, rest⟩
  · exact ⟨_, rfl⟩
  by_cases hb : b = backslashByte
  · rcases rest with _ | ⟨c, rest⟩
    · exact ⟨.here .endInString [], by simp [hb]⟩
    · have hc : c ≠ 0x75 := fun hc => hnext rest (by rw [hb, hc])
      exact ⟨.here .cutSurrogatePair rest, by simp [hb, hc]⟩
  · exact ⟨.here .cutSurrogatePair rest, by simp [hb]⟩

/-! ## Strings that are read -/

theorem stringContent_unit {u : CodeUnit} {tail bytes left : Bytes}
    (h : unicodeEscape (u.bytes ++ tail) = .ok (bytes, left)) :
    stringContent ((Piece.unit u).bytes ++ tail)
      = (stringContent left).map fun (more, left) => (bytes ++ more, left) :=
  stringContent_escape ((escape_unit u tail).trans h)

theorem stringContent_unit_ne_ok {u : CodeUnit} {tail content left : Bytes}
    (h : ∃ fault, unicodeEscape (u.bytes ++ tail) = .error fault) :
    stringContent ((Piece.unit u).bytes ++ tail) ≠ .ok (content, left) := by
  obtain ⟨fault, h⟩ := h
  have hescape : escape (0x75 :: (u.bytes ++ tail)) = .error fault := (escape_unit u tail).trans h
  have hquote : ¬ backslashByte = quoteByte := by decide
  show stringContent (backslashByte :: (0x75 :: (u.bytes ++ tail))) ≠ _
  rw [stringContent, if_neg hquote, if_pos rfl]
  split
  · rintro ⟨⟩
  · next bytes left hok =>
    rw [hescape] at hok
    cases hok

theorem stringContent_shorthand (e : Shorthand) (rest : Bytes) :
    stringContent ((Piece.shorthand e).bytes ++ rest)
      = (stringContent rest).map fun (more, left) =>
        (String.utf8EncodeChar e.char ++ more, left) := by
  obtain ⟨letter, b, -, hletter, hchar, hescape⟩ := e.bytes_eq
  rw [Piece.bytes, hletter, hchar]
  exact stringContent_letter hescape rest

/-- The bytes of pieces with what follows the string never begin with the escape of a code unit,
unless the first piece is one. -/
theorem flatMap_bytes_ne {ps : List Piece} (hfirst : ∀ u more, ps ≠ .unit u :: more)
    (rest more : Bytes) :
    ps.flatMap Piece.bytes ++ quoteByte :: rest ≠ backslashByte :: 0x75 :: more := by
  rcases ps with _ | ⟨p, ps⟩
  · intro h
    exact absurd (List.cons.inj h).1 (by decide)
  rw [List.flatMap_cons, List.append_assoc]
  cases p with
  | plain c hplain =>
    intro h
    rw [Piece.bytes] at h
    rcases hbytes : String.utf8EncodeChar c with _ | ⟨b, bytes⟩
    · exact String.utf8EncodeChar_ne_nil hbytes
    · rw [hbytes] at h
      refine (isBare_of_isPlainChar hplain b ?_).2.1 (List.cons.inj h).1
      rw [hbytes]
      exact List.mem_cons_self
  | shorthand e =>
    obtain ⟨letter, b, hne, hletter, -, -⟩ := e.bytes_eq
    intro h
    rw [Piece.bytes, hletter] at h
    exact hne (List.cons.inj (List.cons.inj h).2).1
  | unit u => exact absurd rfl (hfirst u ps)

/-- A string that can be read is read up to its closing quotation mark, and what is read are the
characters of its pieces. -/
theorem stringContent_pieces {ps : List Piece} {rest content left : Bytes}
    (h : stringContent (ps.flatMap Piece.bytes ++ quoteByte :: rest) = .ok (content, left)) :
    left = rest ∧ ∃ cs, Piece.chars? ps = some cs ∧ content = cs.flatMap String.utf8EncodeChar := by
  fun_induction Piece.chars? ps generalizing content with
  | case1 =>
    rw [List.flatMap_nil, List.nil_append, stringContent, if_pos rfl] at h
    cases h
    exact ⟨rfl, [], rfl, rfl⟩
  | case2 c hplain more ih =>
    rw [List.flatMap_cons, List.append_assoc, Piece.bytes,
      stringContent_bare (isBare_of_isPlainChar hplain)] at h
    obtain ⟨⟨content', left'⟩, hread, heq⟩ := Steps.map_eq_ok_iff.mp h
    obtain ⟨rfl, rfl⟩ := Prod.mk.inj heq
    obtain ⟨hleft, cs, hcs, rfl⟩ := ih hread
    exact ⟨hleft, c :: cs, by rw [hcs]; rfl, by rw [List.flatMap_cons]⟩
  | case3 e more ih =>
    rw [List.flatMap_cons, List.append_assoc, stringContent_shorthand] at h
    obtain ⟨⟨content', left'⟩, hread, heq⟩ := Steps.map_eq_ok_iff.mp h
    obtain ⟨rfl, rfl⟩ := Prod.mk.inj heq
    obtain ⟨hleft, cs, hcs, rfl⟩ := ih hread
    exact ⟨hleft, e.char :: cs, by rw [hcs]; rfl, by rw [List.flatMap_cons]⟩
  | case4 u more hlow =>
    rw [List.flatMap_cons, List.append_assoc] at h
    exact absurd h (stringContent_unit_ne_ok (unicodeEscape_low hlow _))
  | case5 u hlow hhigh v more hnext ih =>
    rw [List.flatMap_cons, List.flatMap_cons, List.append_assoc, List.append_assoc,
      stringContent_unit (unicodeEscape_pair (Bool.eq_false_iff.mpr hlow) hhigh hnext _)] at h
    obtain ⟨⟨content', left'⟩, hread, heq⟩ := Steps.map_eq_ok_iff.mp h
    obtain ⟨rfl, rfl⟩ := Prod.mk.inj heq
    obtain ⟨hleft, cs, hcs, rfl⟩ := ih hread
    refine ⟨hleft, Char.ofNat (pairNumber u.value v.value) :: cs, ?_, ?_⟩
    · rw [hcs, Option.map_eq_map, Option.map_some]
    · rw [List.flatMap_cons, charBytes]
  | case6 u hlow hhigh v more hnext =>
    rw [List.flatMap_cons, List.flatMap_cons, List.append_assoc, List.append_assoc] at h
    exact absurd h (stringContent_unit_ne_ok
      (unicodeEscape_lone (Bool.eq_false_iff.mpr hlow) hhigh (Bool.eq_false_iff.mpr hnext) _))
  | case7 u more hlow hhigh hother =>
    rw [List.flatMap_cons, List.append_assoc] at h
    exact absurd h (stringContent_unit_ne_ok
      (unicodeEscape_cut (Bool.eq_false_iff.mpr hlow) hhigh (flatMap_bytes_ne hother rest)))
  | case8 u more hlow hhigh ih =>
    rw [List.flatMap_cons, List.append_assoc, stringContent_unit
      (unicodeEscape_single (Bool.eq_false_iff.mpr hlow) (Bool.eq_false_iff.mpr hhigh) _)] at h
    obtain ⟨⟨content', left'⟩, hread, heq⟩ := Steps.map_eq_ok_iff.mp h
    obtain ⟨rfl, rfl⟩ := Prod.mk.inj heq
    obtain ⟨hleft, cs, hcs, rfl⟩ := ih hread
    refine ⟨hleft, Char.ofNat u.value :: cs, ?_, ?_⟩
    · rw [hcs, Option.map_eq_map, Option.map_some]
    · rw [List.flatMap_cons, charBytes]

/-- Characters are decoded from their bytes. -/
theorem decode?_flatMap (cs : List Char) :
    Utf8.decode? (cs.flatMap String.utf8EncodeChar) = some (String.ofList cs) := by
  have hencode := Utf8.decode?_encode (String.ofList cs)
  rwa [Utf8.encode, String.toList_ofList] at hencode

/-- A string that can be read is read as the text that it stands for, and nothing behind it is
touched. -/
theorem string_quoted {q : Quoted} {rest left : Bytes} {s : String}
    (h : string (q.flatMap Piece.bytes ++ quoteByte :: rest) = .ok (s, left)) :
    left = rest ∧ q.text? = some s := by
  rw [string] at h
  obtain ⟨⟨content, left'⟩, hcontent, h⟩ := Steps.bind_eq_ok_iff.mp h
  obtain ⟨rfl, cs, hcs, rfl⟩ := stringContent_pieces hcontent
  simp only [decode?_flatMap] at h
  cases h
  exact ⟨rfl, by rw [Quoted.text?, hcs, Option.map_some]⟩

/-- Pieces that stand for characters are read as these. -/
theorem stringContent_of_chars? {ps : List Piece} {cs : List Char} (h : Piece.chars? ps = some cs)
    (rest : Bytes) :
    stringContent (ps.flatMap Piece.bytes ++ quoteByte :: rest)
      = .ok (cs.flatMap String.utf8EncodeChar, rest) := by
  fun_induction Piece.chars? ps generalizing cs with
  | case1 =>
    cases h
    rw [List.flatMap_nil, List.nil_append, stringContent, if_pos rfl]
    rfl
  | case2 c hplain more ih =>
    obtain ⟨cs, hcs, rfl⟩ := Option.map_eq_some_iff.mp h
    rw [List.flatMap_cons, List.append_assoc, Piece.bytes,
      stringContent_bare (isBare_of_isPlainChar hplain), ih hcs]
    rfl
  | case3 e more ih =>
    obtain ⟨cs, hcs, rfl⟩ := Option.map_eq_some_iff.mp h
    rw [List.flatMap_cons, List.append_assoc, stringContent_shorthand, ih hcs]
    rfl
  | case5 u hlow hhigh v more hnext ih =>
    obtain ⟨cs, hcs, rfl⟩ := Option.map_eq_some_iff.mp h
    rw [List.flatMap_cons, List.flatMap_cons, List.append_assoc, List.append_assoc,
      stringContent_unit (unicodeEscape_pair (Bool.eq_false_iff.mpr hlow) hhigh hnext _), ih hcs]
    rfl
  | case8 u more hlow hhigh ih =>
    obtain ⟨cs, hcs, rfl⟩ := Option.map_eq_some_iff.mp h
    rw [List.flatMap_cons, List.append_assoc, stringContent_unit
      (unicodeEscape_single (Bool.eq_false_iff.mpr hlow) (Bool.eq_false_iff.mpr hhigh) _), ih hcs]
    rfl
  -- half of a surrogate pair without the other stands for nothing
  | case4 => cases h
  | case6 => cases h
  | case7 => cases h

/-- A string that stands for a text is read as it, whatever follows. -/
theorem string_of_text? {q : Quoted} {s : String} (h : q.text? = some s) (rest : Bytes) :
    string (q.flatMap Piece.bytes ++ quoteByte :: rest) = .ok (s, rest) := by
  obtain ⟨cs, hcs, rfl⟩ := Option.map_eq_some_iff.mp h
  rw [string, stringContent_of_chars? hcs]
  simp only [bind, Except.bind, decode?_flatMap]
  rfl

/-! ## Strings that are passed over -/

theorem skipString_backslash {text left : Bytes} (h : skipEscape text = .ok left) :
    skipString (backslashByte :: text) = skipString left := by
  have hquote : ¬ backslashByte = quoteByte := by decide
  rw [skipString, if_neg hquote, if_pos rfl]
  split
  · next fault hfault =>
    rw [h] at hfault
    cases hfault
  · next left' hok =>
    rw [h] at hok
    rw [Except.ok.inj hok]

theorem skipString_piece (p : Piece) (rest : Bytes) :
    skipString (p.bytes ++ rest) = skipString rest := by
  cases p with
  | plain c hplain => exact skipString_bare (isBare_of_isPlainChar hplain) rest
  | shorthand e =>
    obtain ⟨letter, b, -, hletter, -, hknown⟩ := e.bytes_eq
    rw [Piece.bytes, hletter]
    refine skipString_backslash ?_
    show skipEscape (letter :: rest) = _
    rw [skipEscape, hknown]
    rfl
  | unit u =>
    have hletter : letterEscape? 0x75 = none := by decide
    refine skipString_backslash ?_
    show skipEscape (0x75 :: (u.bytes ++ rest)) = _
    rw [skipEscape, hletter, u.hexEscape_bytes]
    rfl

/-- Every string can be passed over. -/
theorem skipString_quoted (q : Quoted) (rest : Bytes) :
    skipString (q.flatMap Piece.bytes ++ quoteByte :: rest) = .ok rest := by
  induction q with
  | nil => rw [List.flatMap_nil, List.nil_append, skipString, if_pos rfl]
  | cons p q ih => rw [List.flatMap_cons, List.append_assoc, skipString_piece, ih]

/-! ## Printed texts -/

/-- The shorthand with which a character is printed, if there is one. A slash is printed as it
is. -/
def Shorthand.ofChar? (c : Char) : Option Shorthand :=
  if c = '"' then some .quote
  else if c = '\\' then some .backslash
  else if c = '\x08' then some .backspace
  else if c = '\t' then some .tab
  else if c = '\n' then some .lineFeed
  else if c = '\x0C' then some .formFeed
  else if c = '\r' then some .carriageReturn
  else none

/-- The code unit of a number, with small digits. -/
def CodeUnit.ofNat (n : Nat) : CodeUnit :=
  ⟨.small (n / 4096), .small (n / 256), .small (n / 16), .small n⟩

/-- The piece that is printed for a character. -/
def Piece.ofChar (c : Char) : Piece :=
  match Shorthand.ofChar? c with
  | some e => .shorthand e
  | none => if h : isPlainChar c = true then .plain c h else .unit (.ofNat c.toNat)

theorem Shorthand.char_of_ofChar? {c : Char} {e : Shorthand} (h : ofChar? c = some e) :
    e.char = c := by
  unfold ofChar? at h
  -- one character after the other that has a shorthand
  iterate 7
    split at h
    · next hc =>
      rw [← Option.some_inj.mp h, hc]
      rfl
  cases h

/-- A character that is neither plain nor has a shorthand is a control character. -/
theorem toNat_lt_of_not_isPlainChar {c : Char} (hnone : Shorthand.ofChar? c = none)
    (hplain : ¬ isPlainChar c = true) : c.toNat < 0x20 := by
  have hquote : c ≠ '"' := by
    rintro rfl
    exact absurd hnone (by decide)
  have hbackslash : c ≠ '\\' := by
    rintro rfl
    exact absurd hnone (by decide)
  rw [isPlainChar, decide_eq_true hquote, decide_eq_true hbackslash, Bool.true_and, Bool.true_and,
    decide_eq_true_iff] at hplain
  exact Nat.not_le.mp hplain

theorem CodeUnit.value_ofNat : ∀ n, n < 0x20 → (ofNat n).value = n
    ∧ isLowSurrogate n = false ∧ isHighSurrogate n = false := by
  decide

/-- The code unit of a control character is what the printer writes for it, unless there is a
shorthand. -/
theorem CodeUnit.bytes_ofNat : ∀ n, n < 0x20 → Shorthand.ofChar? (Char.ofNat n) = none →
    (Piece.unit (ofNat n)).bytes = (String.utf8EncodeChar (Char.ofNat n)).flatMap escapeByte := by
  decide

theorem Shorthand.bytes_ofChar? {c : Char} {e : Shorthand} (h : ofChar? c = some e) :
    (Piece.shorthand e).bytes = (String.utf8EncodeChar c).flatMap escapeByte := by
  obtain rfl := char_of_ofChar? h
  cases e with
  | slash =>
    have hnone : ofChar? slash.char = none := rfl
    rw [hnone] at h
    cases h
  | _ => rfl

theorem flatMap_escapeByte_bare {bytes : Bytes} (h : ∀ b ∈ bytes, IsBare b) :
    bytes.flatMap escapeByte = bytes := by
  induction bytes with
  | nil => rfl
  | cons b bytes ih =>
    obtain ⟨hquote, hbackslash, hcontrol⟩ := h b List.mem_cons_self
    have hletter : ∀ c : UInt8, c < 0x20 → b ≠ c := by
      rintro c hc rfl
      exact hcontrol hc
    rw [List.flatMap_cons, ih fun c hc => h c (List.mem_cons_of_mem b hc), escapeByte,
      if_neg hquote, if_neg hbackslash, if_neg (hletter 0x08 (by decide)),
      if_neg (hletter 0x09 (by decide)), if_neg (hletter 0x0A (by decide)),
      if_neg (hletter 0x0C (by decide)), if_neg (hletter 0x0D (by decide)), if_neg hcontrol,
      List.singleton_append]

/-- The piece of a character is what the printer writes for it. -/
theorem Piece.bytes_ofChar (c : Char) :
    (ofChar c).bytes = (String.utf8EncodeChar c).flatMap escapeByte := by
  rw [ofChar]
  rcases hshort : Shorthand.ofChar? c with _ | e
  · by_cases hplain : isPlainChar c = true
    · simp only [dif_pos hplain]
      rw [bytes, flatMap_escapeByte_bare (isBare_of_isPlainChar hplain)]
    · have hcontrol := CodeUnit.bytes_ofNat c.toNat (toNat_lt_of_not_isPlainChar hshort hplain)
      rw [Char.ofNat_toNat] at hcontrol
      simp only [dif_neg hplain]
      exact hcontrol hshort
  · exact Shorthand.bytes_ofChar? hshort

/-- A code unit that is no half of a surrogate pair stands for a character. -/
theorem Piece.chars?_unit {u : CodeUnit} (hlow : isLowSurrogate u.value = false)
    (hhigh : isHighSurrogate u.value = false) (more : List Piece) :
    chars? (unit u :: more) = (Char.ofNat u.value :: ·) <$> chars? more := by
  rw [chars?.eq_def]
  simp only [hlow, hhigh, Bool.false_eq_true, if_false]

/-- The piece of a character stands for it. -/
theorem Piece.chars?_ofChar (c : Char) (more : List Piece) :
    chars? (ofChar c :: more) = (c :: ·) <$> chars? more := by
  rw [ofChar]
  rcases hshort : Shorthand.ofChar? c with _ | e
  · by_cases hplain : isPlainChar c = true
    · simp only [dif_pos hplain]
      rw [chars?]
    · obtain ⟨hvalue, hlow, hhigh⟩ :=
        CodeUnit.value_ofNat c.toNat (toNat_lt_of_not_isPlainChar hshort hplain)
      rw [dif_neg hplain, chars?_unit (by rw [hvalue, hlow]) (by rw [hvalue, hhigh]), hvalue,
        Char.ofNat_toNat]
  · rw [← Shorthand.char_of_ofChar? hshort]
    rfl

/-- The string that is printed for a text. -/
def Quoted.ofText (s : String) : Quoted :=
  s.toList.map Piece.ofChar

theorem Quoted.bytes_ofText (s : String) : (ofText s).bytes = stringBytes s := by
  have hbytes : ∀ cs : List Char, (cs.map Piece.ofChar).flatMap Piece.bytes
      = (cs.flatMap String.utf8EncodeChar).flatMap escapeByte := by
    intro cs
    induction cs with
    | nil => rfl
    | cons c cs ih =>
      rw [List.map_cons, List.flatMap_cons, List.flatMap_cons, List.flatMap_append, ih,
        Piece.bytes_ofChar]
  rw [ofText, bytes, hbytes, stringBytes, Utf8.encode]

/-- It stands for the text. -/
theorem Quoted.text?_ofText (s : String) : (ofText s).text? = some s := by
  have hchars : ∀ cs : List Char, Piece.chars? (cs.map Piece.ofChar) = some cs := by
    intro cs
    induction cs with
    | nil => rfl
    | cons c cs ih =>
      rw [List.map_cons, Piece.chars?_ofChar, ih]
      rfl
  rw [ofText, text?, hchars, Option.map_some, String.ofList_toList]

end Json

end BootTrust
