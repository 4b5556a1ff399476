import BootTrust.Proofs.Spelling.Records
/-
Values of one piece. A reader that wants a flag, a text or a number looks at one piece of a
value, and what it sees there is a `Scalar`. Everything else about the value, the way it is
written and what is in its brackets, does not count. So what becomes of a member can be told from
its name and its scalar (`Member.seen`), for members of a text and for members of a document in
memory alike (`seen_of_isPrintedAs`).

What is spelled is a text. Its blanks, digits and escapes are ASCII, and the other
characters stand as they are.
-/

set_option autoImplicit false

namespace BootTrust.Json

/-! ## Spellings are texts -/

theorem Blanks.isText (blanks : Blanks) : Utf8.IsText blanks.bytes :=
  Utf8.IsText.of_ascii fun b hb => ascii_of_isBlankByte (blanks.areBlank b hb)

theorem Digits.isText (ds : List (Fin 10)) : Utf8.IsText (ds.map byte) := by
  have hascii : ∀ d : Fin 10, (byte d).toNat < 0x80 := by decide
  refine Utf8.IsText.of_ascii fun b hb => ?_
  obtain ⟨d, -, rfl⟩ := List.mem_map.mp hb
  exact hascii d

theorem Literal.isText_exponentBytes (l : Literal) : Utf8.IsText l.exponentBytes := by
  rw [exponentBytes]
  rcases l.exponent with _ | ⟨large, sign, digits⟩
  · exact .nil
  · have hletter : (if large then 0x45 else 0x65 : UInt8).toNat < 0x80 := by
      rcases large with _ | _ <;> decide
    rcases sign with _ | _ | _
    · exact .cons hletter (Digits.isText _)
    · exact .cons hletter (.cons (by decide) (Digits.isText _))
    · exact .cons hletter (.cons (by decide) (Digits.isText _))

theorem Literal.isText (l : Literal) : Utf8.IsText l.bytes := by
  have hsign : Utf8.IsText (if l.negative then [minusByte] else []) := by
    rcases l.negative with _ | _
    · exact .nil
    · exact .ascii (by decide)
  refine hsign.append ((Digits.isText _).append ?_)
  rw [tailBytes]
  rcases l.fraction with _ | ds
  · exact l.isText_exponentBytes
  · exact .cons (by decide) ((Digits.isText _).append l.isText_exponentBytes)

theorem HexDigit.ascii_byte (d : HexDigit) : d.byte.toNat < 0x80 := by
  have hall : ∀ (value : Fin 16) (large : Bool), (HexDigit.byte ⟨value, large⟩).toNat < 0x80 := by
    decide
  exact hall d.value d.large

theorem Piece.isText (piece : Piece) : Utf8.IsText piece.bytes := by
  have hchar : ∀ c, Utf8.IsText (String.utf8EncodeChar c) := by
    intro c
    refine ⟨String.ofList [c], ?_⟩
    rw [Utf8.encode, String.toList_ofList, List.flatMap_singleton]
  cases piece with
  | plain c _ => exact hchar c
  | shorthand escape => exact .cons (by decide) (hchar _)
  | unit u =>
    exact .cons (by decide) (.cons (by decide) (.cons u.a.ascii_byte (.cons u.b.ascii_byte
      (.cons u.c.ascii_byte (.ascii u.d.ascii_byte)))))

theorem Quoted.isText (q : Quoted) : Utf8.IsText q.bytes := by
  have hpieces : Utf8.IsText (q.flatMap Piece.bytes) := by
    induction q with
    | nil => exact .nil
    | cons piece q ih => exact piece.isText.append ih
  exact .cons (by decide) (hpieces.append (.ascii (by decide)))

theorem Padded.isText_nameBytes (name : Padded Quoted) : Utf8.IsText name.nameBytes :=
  name.before.isText.append
    (name.inner.isText.append (name.after.isText.append (.ascii (by decide))))

namespace Spelling

mutual

theorem isText_bytes : (s : Spelling) → Utf8.IsText s.bytes
  | null => .encode _
  | bool true => .encode _
  | bool false => .encode _
  | number l => l.isText
  | string q => q.isText
  | emptyArray inside => .cons (by decide) (inside.isText.append (.ascii (by decide)))
  | array ⟨before, s, after⟩ more =>
    .cons (by decide)
      (before.isText.append (s.isText_bytes.append (after.isText.append (isText_moreItems more))))
  | emptyObject inside => .cons (by decide) (inside.isText.append (.ascii (by decide)))
  | object ⟨name, before, s, after⟩ more =>
    .cons (by decide) (name.isText_nameBytes.append (before.isText.append (s.isText_bytes.append
      (after.isText.append (isText_moreMembers more)))))

theorem isText_moreItems : (more : List (Padded Spelling)) → Utf8.IsText (moreItems more)
  | [] => .ascii (by decide)
  | ⟨before, s, after⟩ :: more =>
    .cons (by decide)
      (before.isText.append (s.isText_bytes.append (after.isText.append (isText_moreItems more))))

theorem isText_moreMembers : (more : List (Member Spelling)) → Utf8.IsText (moreMembers more)
  | [] => .ascii (by decide)
  | ⟨name, before, s, after⟩ :: more =>
    .cons (by decide) (name.isText_nameBytes.append (before.isText.append (s.isText_bytes.append
      (after.isText.append (isText_moreMembers more)))))

end

end Spelling

theorem Padded.isText (text : Padded Spelling) : Utf8.IsText text.bytes :=
  text.before.isText.append (text.inner.isText_bytes.append text.after.isText)

/-! ## Scalars -/

/-- What a reader of one piece sees of a value. -/
inductive Scalar where
  | null
  | bool (b : Bool)
  | text (s : String)
  | integer (n : Int)
  /-- A bracket, a number that is not written as an integer, or a string that is no text. -/
  | other
  deriving DecidableEq

namespace Scalar

def bool? : Scalar → Option Bool
  | bool b => some b
  | _ => none

def text? : Scalar → Option String
  | text s => some s
  | _ => none

def integer? : Scalar → Option Int
  | integer n => some n
  | _ => none

/-- `null`, or what is accepted of another piece. -/
def orNull? {β : Type} (accept? : Scalar → Option β) : Scalar → Option (Option β)
  | null => some none
  | scalar => (accept? scalar).map some

variable {scalar : Scalar}

theorem bool?_eq_some_iff {b : Bool} : scalar.bool? = some b ↔ scalar = bool b := by
  cases scalar <;> simp [bool?]

theorem text?_eq_some_iff {s : String} : scalar.text? = some s ↔ scalar = text s := by
  cases scalar <;> simp [text?]

theorem integer?_eq_some_iff {n : Int} : scalar.integer? = some n ↔ scalar = integer n := by
  cases scalar <;> simp [integer?]

theorem orNull?_of_ne_null {β : Type} {accept? : Scalar → Option β} (h : scalar ≠ null) :
    scalar.orNull? accept? = (accept? scalar).map some := by
  cases scalar with
  | null => exact absurd rfl h
  | _ => rfl

/-- If what is accepted is written in one way and never as `null`, so is a value that may be
unset. -/
theorem orNull?_eq_some_iff {β : Type} {accept? : Scalar → Option β} {write : β → Scalar}
    {value : Option β} (haccept : ∀ b, accept? scalar = some b ↔ scalar = write b)
    (hwrite : ∀ b, write b ≠ null) :
    scalar.orNull? accept? = some value ↔ scalar = value.elim null write := by
  by_cases hnull : scalar = null
  · subst hnull
    rcases value with _ | b
    · simp [orNull?]
    · simp [orNull?, (hwrite b).symm]
  · rw [orNull?_of_ne_null hnull, Option.map_eq_some_iff]
    rcases value with _ | b
    · simp [hnull]
    · simp [haccept]

end Scalar

def Spelling.scalar : Spelling → Scalar
  | null => .null
  | bool b => .bool b
  | string q => (q.text?.map Scalar.text).getD .other
  | number l => ((number l).integer?.map Scalar.integer).getD .other
  | emptyArray _ | array _ _ | emptyObject _ | object _ _ => .other

def Document.scalar : Document → Scalar
  | null => .null
  | bool b => .bool b
  | string s => .text s
  | number n => (n.integer?.map Scalar.integer).getD .other
  | array _ | object _ => .other

/-- What is seen of a member. -/
def Member.seen (m : Member Spelling) : Option String × Scalar :=
  (m.name.inner.text?, m.value.inner.scalar)

/-- What is seen of a member in memory. Its name is a text. -/
def Document.seen (m : String × Document) : Option String × Scalar :=
  (some m.1, m.2.scalar)

namespace Spelling

theorem text?_scalar (s : Spelling) : s.scalar.text? = s.text? := by
  cases s with
  | string q =>
    rw [scalar, text?]
    rcases q.text? with _ | t
    · rfl
    · rfl
  | number l =>
    rw [scalar]
    rcases (number l).integer? with _ | n
    · rfl
    · rfl
  | _ => rfl

theorem integer?_scalar (s : Spelling) : s.scalar.integer? = s.integer? := by
  cases s with
  | string q =>
    rw [scalar]
    rcases q.text? with _ | t
    · rfl
    · rfl
  | number l =>
    rw [scalar]
    rcases (number l).integer? with _ | n
    · rfl
    · rfl
  | _ => rfl

theorem bool?_scalar_eq_some_iff {s : Spelling} {b : Bool} :
    s.scalar.bool? = some b ↔ s = bool b := by
  refine ⟨fun h => ?_, fun h => by rw [h]; rfl⟩
  cases s with
  | bool b' =>
    cases h
    rfl
  | string q =>
    rw [scalar] at h
    rcases htext : q.text? with _ | t <;> rw [htext] at h <;> cases h
  | number l =>
    rw [scalar] at h
    rcases hinteger : (number l).integer? with _ | n <;> rw [hinteger] at h <;> cases h
  | _ => cases h

theorem scalar_eq_null_iff {s : Spelling} : s.scalar = .null ↔ s = null := by
  refine ⟨fun h => ?_, fun h => by rw [h]; rfl⟩
  cases s with
  | null => rfl
  | string q =>
    rw [scalar] at h
    rcases htext : q.text? with _ | t <;> rw [htext] at h <;> cases h
  | number l =>
    rw [scalar] at h
    rcases hinteger : (number l).integer? with _ | n <;> rw [hinteger] at h <;> cases h
  | _ => cases h

end Spelling

namespace Document

theorem text?_scalar (d : Document) : d.scalar.text? = d.text? := by
  rcases d with _ | _ | ⟨n, inRange⟩ | x | _ | _ | _ <;> rfl

theorem integer?_scalar (d : Document) : d.scalar.integer? = d.integer? := by
  rcases d with _ | _ | (⟨n, inRange⟩ | x) | _ | _ | _ <;> rfl

theorem bool?_scalar_eq_some_iff {d : Document} {b : Bool} :
    d.scalar.bool? = some b ↔ d = bool b := by
  rcases d with _ | _ | (⟨n, inRange⟩ | x) | _ | _ | _ <;>
    simp [scalar, Scalar.bool?, Number.integer?]

theorem scalar_eq_null_iff {d : Document} : d.scalar = .null ↔ d = null := by
  rcases d with _ | _ | (⟨n, inRange⟩ | x) | _ | _ | _ <;> simp [scalar, Number.integer?]

end Document

/-- A scalar is known from what readers of one piece accept. -/
theorem Scalar.ext_pieces {scalar scalar' : Scalar} (hnull : scalar = .null ↔ scalar' = .null)
    (hbool : scalar.bool? = scalar'.bool?) (htext : scalar.text? = scalar'.text?)
    (hinteger : scalar.integer? = scalar'.integer?) : scalar = scalar' := by
  cases scalar <;> cases scalar' <;> simp_all [bool?, text?, integer?]

/-- What is written for a document is seen as what the document is. -/
theorem Document.IsWrittenAs.scalar {d : Document} {s : Spelling} (h : d.IsWrittenAs s) :
    s.scalar = d.scalar := by
  refine Scalar.ext_pieces ?_ (Option.ext fun b => ?_) ?_ ?_
  · rw [Spelling.scalar_eq_null_iff, Document.scalar_eq_null_iff, h.null]
  · rw [Spelling.bool?_scalar_eq_some_iff, Document.bool?_scalar_eq_some_iff, h.bool]
  · rw [Spelling.text?_scalar, Document.text?_scalar, h.text]
  · rw [Spelling.integer?_scalar, Document.integer?_scalar, h.integer]

/-- So are the members of an object. -/
theorem Document.seen_of_isPrintedAs {sp : Spacing} {depth : Nat} {ms : List (String × Document)}
    {members : List (Member Spelling)} (h : List.Forall₂ (IsPrintedAs sp depth) ms members) :
    members.map Member.seen = ms.map Document.seen := by
  induction h with
  | nil => rfl
  | @cons m written ms members hfirst _ ih =>
    rw [List.map_cons, List.map_cons, ih, Member.seen, Document.seen, hfirst.name,
      hfirst.isWrittenAs.scalar]

/-! ## Readers of one piece -/

section Readers

variable {β : Type}

/-- Only a word begins with the letter that it begins with. -/
theorem Spelling.eq_word_of_head {s word : Spelling} (hword : word = null ∨ ∃ b, word = bool b)
    (h : s.head = word.head) : s = word := by
  cases s with
  | null => rcases hword with rfl | ⟨_ | _, rfl⟩ <;> first | rfl | exact absurd h (by decide)
  | bool b =>
    rcases b with _ | _ <;> rcases hword with rfl | ⟨_ | _, rfl⟩ <;>
      first | rfl | exact absurd h (by decide)
  | number l =>
    have hother : word.head ≠ minusByte ∧ isDigit word.head = false := by
      rcases hword with rfl | ⟨_ | _, rfl⟩ <;> exact ⟨by decide, by decide⟩
    rcases head_number l with hsign | hdigit
    · exact absurd (h.symm.trans hsign) hother.1
    · rw [h, hother.2] at hdigit
      cases hdigit
  | _ =>
    rw [head] at h
    rcases hword with rfl | ⟨_ | _, rfl⟩ <;> exact absurd h (by decide)

/-- A text is accepted as its scalar's text. -/
theorem readsAs_stringAs_scalar (expected : String) :
    ReadsAs (stringAs expected) fun s => s.scalar.text? := by
  simp only [Spelling.text?_scalar]
  exact readsAs_stringAs expected

/-- A flag is accepted if it is one of the two words. -/
theorem readsAs_flag : ReadsAs flag fun s => s.scalar.bool? := by
  intro blanks s rest left b _
  obtain ⟨-, htrue, hfalse⟩ := encode_words
  obtain ⟨body, hbytes⟩ := s.bytes_eq_cons
  rw [flag, Spelling.skipBlanks_bytes, Spelling.bool?_scalar_eq_some_iff, hbytes]
  simp only [List.cons_append]
  have hword : ∀ v, s = .bool v →
      (Except.ok (v, rest) = (.ok (b, left) : Except Fault (Bool × Bytes))
        ↔ s = .bool b ∧ left = rest) := by
    rintro v rfl
    simp [eq_comm]
  by_cases hhead : s.head = 0x74
  · have hs : s = .bool true := Spelling.eq_word_of_head (Or.inr ⟨true, rfl⟩) hhead
    rw [hs, Spelling.bytes, htrue] at hbytes
    rw [if_pos hhead, ← (List.cons.inj hbytes).2, word_append]
    exact hword true hs
  by_cases hhead' : s.head = 0x66
  · have hs : s = .bool false := Spelling.eq_word_of_head (Or.inr ⟨false, rfl⟩) hhead'
    rw [hs, Spelling.bytes, hfalse] at hbytes
    rw [if_neg hhead, if_pos hhead', ← (List.cons.inj hbytes).2, word_append]
    exact hword false hs
  · rw [if_neg hhead, if_neg hhead']
    constructor
    · intro h
      cases h
    · rintro ⟨rfl, -⟩
      rcases b with _ | _
      · exact absurd rfl hhead'
      · exact absurd rfl hhead

/-- A value that may be unset is accepted if it is `null` or accepted otherwise. -/
theorem ReadsAs.orNull {reader : Reader β} {accept? : Scalar → Option β}
    (h : ReadsAs reader fun s => accept? s.scalar) :
    ReadsAs (orNull reader) fun s => s.scalar.orNull? accept? := by
  intro blanks s rest left b hends
  obtain ⟨body, hbytes⟩ := s.bytes_eq_cons
  obtain ⟨hnull, -⟩ := encode_words
  rw [Json.orNull, Spelling.skipBlanks_bytes, hbytes]
  simp only [List.cons_append]
  by_cases hhead : s.head = 0x6E
  · obtain rfl : s = .null := Spelling.eq_word_of_head (Or.inl rfl) hhead
    rw [Spelling.bytes, hnull] at hbytes
    rw [if_pos hhead, ← (List.cons.inj hbytes).2, word_append]
    constructor
    · rintro ⟨⟩
      exact ⟨rfl, rfl⟩
    · rintro ⟨⟨⟩, rfl⟩
      rfl
  · have hscalar : s.scalar ≠ .null := by
      rw [ne_eq, Spelling.scalar_eq_null_iff]
      rintro rfl
      exact hhead rfl
    rw [if_neg hhead, Scalar.orNull?_of_ne_null hscalar, ← (h.map some) .none s hends, hbytes]
    rfl

end Readers

end BootTrust.Json
