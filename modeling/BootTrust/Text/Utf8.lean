/-
Byte strings, and UTF-8 in both directions. File contents, request bodies and printed
documents are byte strings; they are kept as lists, because every function on them here is a
recursion from the front.

`encode` writes a text as bytes; `decodePrefix` reads as many characters as the bytes allow and
hands back what it could not read, so a caller learns both the text and the place of the first bad
byte. Only the shortest form of a character is accepted, and no surrogate.

The main statement is `decode?_encode`: decoding undoes encoding. It rests on
`decodeChar?_encode_append`, which says that the bytes of one character are read back as that
character whatever follows them, so characters need no separator.
-/

set_option autoImplicit false

namespace BootTrust

/-- A byte string, first byte at the head. -/
abbrev Bytes := List UInt8

namespace Utf8

/-- The bytes of a text. -/
def encode (s : String) : Bytes :=
  s.toList.flatMap String.utf8EncodeChar

/-! ## One character -/

/-- Whether `b` has the form `10xxxxxx` of a byte that continues a character. -/
def isContinuation (b : UInt8) : Bool :=
  0x80 ≤ b.toNat && b.toNat < 0xC0

/-- What a first byte announces. -/
structure Lead where
  /-- How many continuation bytes follow. -/
  more : Nat
  /-- The bits of the character that the first byte itself carries. -/
  payload : Nat
  /-- The least number that needs this many bytes; below it the form is overlong. -/
  least : Nat

/-- Reads a first byte; a continuation byte and `0xF8` to `0xFF` start nothing. -/
def Lead.ofByte? (b : UInt8) : Option Lead :=
  let n := b.toNat
  if n < 0x80 then some ⟨0, n, 0⟩
  else if n < 0xC0 then none
  else if n < 0xE0 then some ⟨1, n - 0xC0, 0x80⟩
  else if n < 0xF0 then some ⟨2, n - 0xE0, 0x800⟩
  else if n < 0xF8 then some ⟨3, n - 0xF0, 0x10000⟩
  else none

/-- Appends the six bits of each of the next `count` bytes to the number `v`. -/
def continue? : (count v : Nat) → Bytes → Option (Nat × Bytes)
  | 0, v, rest => some (v, rest)
  | count + 1, v, b :: rest =>
    if isContinuation b then continue? count (v * 64 + (b.toNat - 0x80)) rest else none
  | _ + 1, _, [] => none

/-- The character at the front of `bytes` and what follows it; `none` when the front is no
character: a stray continuation byte, a cut or overlong form, a surrogate, or a number above
U+10FFFF. -/
def decodeChar? : Bytes → Option (Char × Bytes)
  | [] => none
  | b :: rest => do
    let lead ← Lead.ofByte? b
    let (v, rest) ← continue? lead.more lead.payload rest
    if lead.least ≤ v ∧ v.isValidChar then some (Char.ofNat v, rest) else none

theorem continue?_length {count v w : Nat} {bytes rest : Bytes}
    (h : continue? count v bytes = some (w, rest)) : rest.length ≤ bytes.length := by
  induction count generalizing v bytes with
  | zero => simp [continue?] at h; simp [h.2]
  | succ count ih =>
    cases bytes with
    | nil => simp [continue?] at h
    | cons b bytes =>
      simp only [continue?] at h
      split at h
      · exact Nat.le_succ_of_le (ih h)
      · cases h

/-- A character takes at least one byte. -/
theorem decodeChar?_length {bytes rest : Bytes} {c : Char}
    (h : decodeChar? bytes = some (c, rest)) : rest.length < bytes.length := by
  cases bytes with
  | nil => simp [decodeChar?] at h
  | cons b bytes =>
    simp only [decodeChar?, Option.bind_eq_bind, Option.bind_eq_some_iff] at h
    obtain ⟨lead, -, ⟨v, left⟩, hc, hv⟩ := h
    have hlen := continue?_length hc
    split at hv
    · cases hv; exact Nat.lt_succ_of_le hlen
    · cases hv

/-! ## Texts -/

/-- The longest run of characters at the front of `bytes`, and the bytes after it. -/
def decodePrefix (bytes : Bytes) : List Char × Bytes :=
  match h : decodeChar? bytes with
  | none => ([], bytes)
  | some (c, rest) =>
    have := decodeChar?_length h
    let (cs, left) := decodePrefix rest
    (c :: cs, left)
termination_by bytes.length

/-- The text that `bytes` spell, if they spell one. -/
def decode? (bytes : Bytes) : Option String :=
  match decodePrefix bytes with
  | (cs, []) => some (String.ofList cs)
  | (_, _ :: _) => none

/-- How many bytes at the front of `bytes` are the encoding of a text. -/
def validLength (bytes : Bytes) : Nat :=
  bytes.length - (decodePrefix bytes).2.length

/-! ## Decoding undoes encoding -/

theorem encode_append (s t : String) : encode (s ++ t) = encode s ++ encode t := by
  simp [encode]

/-- Reading back the bytes of a character gives the character, whatever follows. -/
theorem decodeChar?_encode_append (c : Char) (rest : Bytes) :
    decodeChar? (String.utf8EncodeChar c ++ rest) = some (c, rest) := by
  have hv := c.valid
  have hc : Char.ofNat c.val.toNat = c := Char.ofNat_toNat c
  simp only [UInt32.isValidChar] at hv
  have hmax : c.val.toNat < 0x110000 := by simp only [Nat.isValidChar] at hv; omega
  unfold String.utf8EncodeChar
  generalize c.val.toNat = v at *
  have key : ∀ k, k < 256 → (UInt8.ofNat k).toNat = k := fun k hk => by
    simp [Nat.mod_eq_of_lt hk]
  have cont : ∀ k, k < 64 → isContinuation (UInt8.ofNat (k + 128)) = true := fun k hk => by
    simp [isContinuation]; omega
  by_cases h1 : v ≤ 127
  · simp only [h1, if_true, List.singleton_append, decodeChar?, Lead.ofByte?, key v (by omega)]
    simp [show v < 128 by omega, continue?, hv, hc]
  by_cases h2 : v ≤ 2047
  · simp only [h1, h2, if_true, if_false, List.cons_append, List.nil_append, decodeChar?,
      Lead.ofByte?, key (v / 64 % 32 + 192) (by omega)]
    rw [if_neg (by omega), if_neg (by omega), if_pos (by omega)]
    simp only [continue?, cont _ (show v % 64 < 64 by omega), key (v % 64 + 128) (by omega),
      if_true, Option.bind_eq_bind, Option.bind_some]
    rw [show (v / 64 % 32 + 192 - 0xC0) * 64 + (v % 64 + 128 - 0x80) = v by omega,
      if_pos ⟨by omega, hv⟩, hc]
  by_cases h3 : v ≤ 65535
  · simp only [h1, h2, h3, if_true, if_false, List.cons_append, List.nil_append, decodeChar?,
      Lead.ofByte?, key (v / 4096 % 16 + 224) (by omega)]
    rw [if_neg (by omega), if_neg (by omega), if_neg (by omega), if_pos (by omega)]
    simp only [continue?, cont _ (show v / 64 % 64 < 64 by omega),
      cont _ (show v % 64 < 64 by omega), key (v / 64 % 64 + 128) (by omega),
      key (v % 64 + 128) (by omega), if_true, Option.bind_eq_bind, Option.bind_some]
    rw [show ((v / 4096 % 16 + 224 - 0xE0) * 64 + (v / 64 % 64 + 128 - 0x80)) * 64
        + (v % 64 + 128 - 0x80) = v by omega, if_pos ⟨by omega, hv⟩, hc]
  · simp only [h1, h2, h3, if_false, List.cons_append, List.nil_append, decodeChar?,
      Lead.ofByte?, key (v / 262144 % 8 + 240) (by omega)]
    rw [if_neg (by omega), if_neg (by omega), if_neg (by omega), if_neg (by omega),
      if_pos (by omega)]
    simp only [continue?, cont _ (show v / 4096 % 64 < 64 by omega),
      cont _ (show v / 64 % 64 < 64 by omega), cont _ (show v % 64 < 64 by omega),
      key (v / 4096 % 64 + 128) (by omega), key (v / 64 % 64 + 128) (by omega),
      key (v % 64 + 128) (by omega), if_true, Option.bind_eq_bind, Option.bind_some]
    rw [show (((v / 262144 % 8 + 240 - 0xF0) * 64 + (v / 4096 % 64 + 128 - 0x80)) * 64
        + (v / 64 % 64 + 128 - 0x80)) * 64 + (v % 64 + 128 - 0x80) = v by omega,
      if_pos ⟨by omega, hv⟩, hc]

theorem decodePrefix_encode_append (cs : List Char) (rest : Bytes) :
    decodePrefix (cs.flatMap String.utf8EncodeChar ++ rest)
      = (cs ++ (decodePrefix rest).1, (decodePrefix rest).2) := by
  induction cs with
  | nil => simp
  | cons c cs ih =>
    have step := decodeChar?_encode_append c (cs.flatMap String.utf8EncodeChar ++ rest)
    rw [← List.append_assoc, ← List.flatMap_cons] at step
    rw [decodePrefix]
    split
    · next h => rw [step] at h; cases h
    · next c' rest' h =>
      rw [step] at h
      cases h
      simp [ih]

/-- Decoding undoes encoding. -/
theorem decode?_encode (s : String) : decode? (encode s) = some s := by
  have h := decodePrefix_encode_append s.toList []
  have hnil : decodePrefix [] = ([], []) := by rw [decodePrefix]; rfl
  simp only [List.append_nil, hnil] at h
  simp [decode?, encode, h]

end Utf8

end BootTrust
