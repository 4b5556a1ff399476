import BootTrust.Json.Typed
import BootTrust.Proofs.Accepted.Numbers
import BootTrust.Proofs.Spelling.Skipping
/-
What the readers of a known type make of a text. Each of them takes the values of its type as what
they stand for, up to their last byte, and refuses all others (`ReadsAs`). Both directions are
needed where a reader decides: that a value is accepted, and that nothing else is.

For strings this is the reading of pieces, from both sides. For whole numbers the work is on the
other side: a number with a fraction, an exponent or too many digits is kept as a floating point
number, whatever its value, and so is a zero with a minus sign. So an integer can only come out
where one is written (`Literal.isInteger_of_number`).
-/

set_option autoImplicit false

namespace BootTrust.Json

/-! ## Whole numbers -/

section Reals

variable {x : Scaled} {n : Number} {text left : Bytes}

/-- What is scaled is a floating point number. -/
theorem toReal_isInteger (h : x.toReal text = .ok (n, left)) : n.isInteger = false := by
  unfold Scaled.toReal at h
  split at h
  · cases h
    rfl
  · cases h

theorem readExponent_isInteger (h : x.readExponent text = .ok (n, left)) : n.isInteger = false := by
  obtain ⟨upwards, heq⟩ := readExponent_eq x text
  rw [heq] at h
  unfold Scaled.readExponentDigits at h
  split at h
  · cases h
  split at h
  · cases h
  split at h
  · exact toReal_isInteger h
  · split at h
    · cases h
    · cases h
      rfl

theorem readRest_isInteger (h : x.readRest text = .ok (n, left)) : n.isInteger = false := by
  rcases text with _ | ⟨b, text⟩
  · exact toReal_isInteger h
  rw [Scaled.readRest] at h
  split at h
  · exact readExponent_isInteger h
  · exact toReal_isInteger h

theorem readFraction_isInteger (h : x.readFraction text = .ok (n, left)) : n.isInteger = false := by
  unfold Scaled.readFraction at h
  rcases boundedDigits x.significand 0 text with ⟨⟨m, count⟩, full, behind⟩
  simp only at h
  split at h
  · exact readRest_isInteger h
  split at h
  · split at h
    · cases h
    · cases h
  · exact readRest_isInteger h

end Reals

namespace Literal

variable {l : Literal} {n : Number} {rest left : Bytes}

/-- Digits that are all taken are the number that they stand for. -/
theorem boundedDigits_map {behind : Bytes} (hends : EndsDigits behind) {m count m' count' : Nat}
    {ds : List (Fin 10)}
    (h : boundedDigits m count (ds.map Digits.byte ++ behind) = ((m', count'), false, left)) :
    m' = Digits.valueFrom m ds ∧ left = behind := by
  induction ds generalizing m count with
  | nil =>
    rcases behind with _ | ⟨b, behind⟩
    · cases h
      exact ⟨rfl, rfl⟩
    · rw [List.map_nil, List.nil_append, boundedDigits, hends b rfl] at h
      cases h
      exact ⟨rfl, rfl⟩
  | cons d ds ih =>
    obtain ⟨-, hdigit, hvalue⟩ := Digits.byte_all d
    rw [List.map_cons, List.cons_append, boundedDigits, hdigit, hvalue] at h
    simp only [Bool.not_true, Bool.false_eq_true, if_false] at h
    split at h
    · cases h
    · exact ih h

/-- Behind the whole part of a number there is nothing that belongs to it, or a point, or the letter
of an exponent. -/
theorem tailBytes_cases (l : Literal) :
    l.isInteger = true
      ∨ ∃ b more, l.tailBytes = b :: more
        ∧ (b = pointByte ∨ b ≠ pointByte ∧ isExponentLetter b = true) := by
  have hletter : ∀ large : Bool, (if large then 0x45 else 0x65) ≠ pointByte
      ∧ isExponentLetter (if large then 0x45 else 0x65) = true := by
    decide
  rw [isInteger, tailBytes, exponentBytes]
  rcases l.fraction with _ | ds
  · rcases l.exponent with _ | e
    · exact Or.inl rfl
    · exact Or.inr ⟨_, _, rfl, Or.inr (hletter e.large)⟩
  · exact Or.inr ⟨_, _, rfl, Or.inl rfl⟩

/-- An integer that is read behind the whole part of a number is the whole part, and there is
nothing behind it. -/
theorem afterWhole_isInteger {positive : Bool} {whole : Nat} (hends : EndsValue rest)
    (h : afterWhole positive whole (l.tailBytes ++ rest) = .ok (n, left))
    (hinteger : n.isInteger = true) :
    l.isInteger = true ∧ wholeNumber positive whole rest = .ok (n, left) := by
  have hreal : n.isInteger = false → False :=
    fun hreal => Bool.false_ne_true (hreal.symm.trans hinteger)
  rcases l.tailBytes_cases with hwhole | ⟨b, more, htail, rfl | ⟨hpoint, hletter⟩⟩
  · rw [tailBytes_of_isInteger hwhole, List.nil_append, afterWhole_of_endsValue hends] at h
    exact ⟨hwhole, h⟩
  · rw [htail, List.cons_append, afterWhole, if_pos rfl] at h
    exact (hreal (readFraction_isInteger h)).elim
  · rw [htail, List.cons_append, afterWhole, if_neg hpoint, if_pos hletter] at h
    exact (hreal (readExponent_isInteger h)).elim

/-- The digits before a point or an exponent are taken as the whole part, if an integer is read. -/
theorem afterWhole_of_number {positive : Bool} (hends : EndsValue rest)
    (h : number positive (l.whole.bytes ++ (l.tailBytes ++ rest)) = .ok (n, left))
    (hinteger : n.isInteger = true) :
    afterWhole positive l.whole.value (l.tailBytes ++ rest) = .ok (n, left) := by
  obtain ⟨-, hdigit, hvalue⟩ := Digits.byte_all l.whole.first
  obtain ⟨htail, -⟩ := skipAfterWhole_tailBytes l hends
  have hwhole : l.whole.value = Digits.valueFrom l.whole.first.val l.whole.more := by
    rw [Digits.value, Digits.list, Digits.valueFrom_cons, Nat.zero_mul, Nat.zero_add]
  rw [Digits.bytes, Digits.list, List.map_cons, List.cons_append] at h
  by_cases hzero : l.whole.first = 0
  · -- a zero stands alone
    rw [hzero, l.noLeadingZero (congrArg Fin.val hzero), List.map_nil, List.nil_append] at h
    rw [hwhole, hzero, l.noLeadingZero (congrArg Fin.val hzero)]
    have hzeroByte : isDigit 0x30 = true := by decide
    rcases hmore : l.tailBytes ++ rest with _ | ⟨c, more⟩
    · rw [hmore] at h
      exact h
    · rw [hmore] at h htail
      have hread : number positive (0x30 :: c :: more) = .ok (n, left) := h
      simp only [number, hzeroByte, htail c rfl] at hread
      exact hread
  · have hne : Digits.byte l.whole.first ≠ 0x30 := fun h => hzero ((Digits.byte_ne _).2.2 h)
    unfold number at h
    simp only [hdigit, Bool.not_true, Bool.false_eq_true, if_false, if_neg hne, hvalue] at h
    rcases hdigits : boundedDigits l.whole.first.val 1
      (l.whole.more.map Digits.byte ++ (l.tailBytes ++ rest)) with ⟨⟨m, count⟩, full, behind⟩
    rw [hdigits] at h
    rcases full with _ | _
    · obtain ⟨rfl, rfl⟩ := boundedDigits_map htail hdigits
      rw [hwhole]
      exact h
    · -- digits that do not fit make a floating point number
      have hreal : n.isInteger = false := by
        simp only [Bool.not_true, Bool.false_eq_true, if_false] at h
        split at h
        · exact toReal_isInteger h
        · split at h
          · exact readFraction_isInteger h
          · exact readRest_isInteger h
      rw [hreal] at hinteger
      cases hinteger

/-- An integer is read only where one is written. -/
theorem isInteger_of_number {i : Int} {inRange : leastInteger ≤ i ∧ i ≤ greatestInteger}
    (hends : EndsValue rest)
    (h : number (!l.negative) (l.whole.bytes ++ (l.tailBytes ++ rest))
      = .ok (.integer i inRange, left)) :
    l.isInteger = true ∧ ¬ (l.negative = true ∧ l.whole.value = 0) ∧ i = l.integer
      ∧ left = rest := by
  obtain ⟨hwhole, h⟩ := afterWhole_isInteger hends (afterWhole_of_number hends h rfl) rfl
  have hreal : ∀ {x : Scaled}, x.toReal rest = .ok (.integer i inRange, left) → False := by
    intro x hx
    cases toReal_isInteger hx
  have hof : ∀ {m : Int}, Number.ofInt? m = some (.integer i inRange) → i = m := by
    intro m hm
    rw [Number.ofInt?] at hm
    split at hm
    · cases hm
      rfl
    · cases hm
  obtain rfl := wholeNumber_taken h
  refine ⟨hwhole, ?_⟩
  rw [integer]
  rcases hnegative : l.negative with _ | _
  · simp only [hnegative, Bool.not_false, wholeNumber, if_true] at h
    split at h
    · next number hnumber =>
      cases h
      exact ⟨by simp, hof hnumber, rfl⟩
    · exact (hreal h).elim
  · simp only [hnegative, Bool.not_true, wholeNumber, Bool.false_eq_true, if_false] at h
    split at h
    · exact (hreal h).elim
    · next hzero =>
      split at h
      · next number hnumber =>
        cases h
        exact ⟨fun hboth => hzero hboth.2, hof hnumber, rfl⟩
      · exact (hreal h).elim

/-- What is read of a number is an integer exactly where one is written that fits 64 bits, and it is
that one. -/
theorem number_eq_integer_iff {i : Int} (inRange : leastInteger ≤ i ∧ i ≤ greatestInteger)
    (hends : EndsValue rest) :
    number (!l.negative) (l.whole.bytes ++ (l.tailBytes ++ rest)) = .ok (.integer i inRange, left)
      ↔ (Spelling.number l).integer? = some i ∧ left = rest := by
  rw [Spelling.integer?]
  constructor
  · intro h
    obtain ⟨hwhole, hzero, rfl, rfl⟩ := isInteger_of_number hends h
    exact ⟨if_pos ⟨hwhole, hzero⟩, rfl⟩
  · rintro ⟨h, rfl⟩
    split at h
    · next hwhole =>
      cases h
      rw [tailBytes_of_isInteger hwhole.1, List.nil_append]
      exact number_integer (fitsWord_iff.mpr ⟨hwhole.1, inRange⟩) hwhole.2 hends
    · cases h

end Literal

/-! ## Readers -/

section Readers

variable {β γ : Type}

/-- Whether a reader takes a value as what it stands for, and refuses it if that is nothing. It
stops exactly behind the value. -/
def ReadsAs (reader : Reader β) (accept? : Spelling → Option β) : Prop :=
  ∀ (blanks : Blanks) (s : Spelling) {rest left : Bytes} {b : β}, EndsValue rest →
    (reader (blanks.bytes ++ (s.bytes ++ rest)) = .ok (b, left) ↔ accept? s = some b ∧ left = rest)

/-- A reader that makes something of what another one takes. -/
theorem ReadsAs.map {reader : Reader β} {accept? : Spelling → Option β} (h : ReadsAs reader accept?)
    (f : β → γ) :
    ReadsAs (fun source => do let (b, rest) ← reader source; return (f b, rest))
      fun s => (accept? s).map f := by
  intro blanks s rest left c hends
  constructor
  · intro hread
    obtain ⟨⟨b, left'⟩, hb, hc⟩ := Steps.bind_eq_ok_iff.mp hread
    cases hc
    obtain ⟨haccept, rfl⟩ := (h blanks s hends).mp hb
    exact ⟨congrArg (Option.map f) haccept, rfl⟩
  · rintro ⟨haccept, rfl⟩
    obtain ⟨b, hb, rfl⟩ := Option.map_eq_some_iff.mp haccept
    exact Steps.bind_eq_ok_iff.mpr ⟨(b, left), (h blanks s hends).mpr ⟨hb, rfl⟩, rfl⟩

/-- A string is taken as its text, whatever it is said to stand for. -/
theorem readsAs_stringAs (expected : String) : ReadsAs (stringAs expected) Spelling.text? := by
  intro blanks s rest left t _
  obtain ⟨body, hbytes⟩ := s.bytes_eq_cons
  rw [stringAs, Spelling.skipBlanks_bytes, hbytes]
  simp only [List.cons_append]
  by_cases hquote : s.head = quoteByte
  · obtain ⟨q, rfl⟩ := Spelling.eq_string_of_head hquote
    have hbody : quoteByte :: (body ++ rest)
        = quoteByte :: (q.flatMap Piece.bytes ++ quoteByte :: rest) := by
      rw [← Spelling.string_append, hbytes]
      rfl
    rw [if_pos hquote, (List.cons.inj hbody).2, Spelling.text?]
    constructor
    · intro h
      exact (string_quoted h).symm
    · rintro ⟨htext, rfl⟩
      exact string_of_text? htext left
  · rw [if_neg hquote]
    constructor
    · intro h
      cases h
    · rintro ⟨htext, -⟩
      cases s with
      | string q => exact absurd rfl hquote
      | _ => cases htext

theorem readsAs_text : ReadsAs text Spelling.text? :=
  readsAs_stringAs "a string"

/-- The integer of some kind that a value is. -/
def Spelling.integerOf? (kind : IntegerKind) (s : Spelling) : Option Int :=
  s.integer?.filter fun n => kind.least ≤ n ∧ n ≤ kind.greatest

theorem integerOf_eq_ok_iff {kind : IntegerKind} {n : Number} {rest left : Bytes} {i : Int} :
    integerOf kind n rest = .ok (i, left) ↔ ∃ inRange, n = .integer i inRange
      ∧ (kind.least ≤ i ∧ i ≤ kind.greatest) ∧ left = rest := by
  rcases n with ⟨m, inRange⟩ | x
  · rw [integerOf]
    split
    · next hkind =>
      constructor
      · rintro ⟨⟩
        exact ⟨inRange, rfl, hkind, rfl⟩
      · rintro ⟨_, heq, _, rfl⟩
        cases heq
        rfl
    · next hkind =>
      constructor
      · rintro ⟨⟩
      · rintro ⟨_, heq, hkind', _⟩
        cases heq
        exact absurd hkind' hkind
  · rw [integerOf]
    constructor
    · rintro ⟨⟩
    · rintro ⟨_, heq, _⟩
      cases heq

/-- A number is read from its sign on. -/
theorem integerAs_literal (kind : IntegerKind) (blanks : Blanks) (l : Literal) (rest : Bytes) :
    integerAs kind (blanks.bytes ++ ((Spelling.number l).bytes ++ rest)) = (do
      let (n, rest) ← number (!l.negative) (l.whole.bytes ++ (l.tailBytes ++ rest))
      integerOf kind n rest) := by
  rw [integerAs, Spelling.skipBlanks_bytes, Spelling.bytes, Literal.bytes]
  rcases l.negative with _ | _
  · obtain ⟨b, more, hbytes, hdigit⟩ := l.whole.first_byte
    have hminus : b ≠ minusByte := ne_of_isDigit hdigit (by decide)
    simp only [hbytes, Bool.false_eq_true, if_false, List.nil_append, List.cons_append,
      List.append_assoc, if_neg hminus, hdigit, if_true]
    rfl
  · simp only [if_true, List.cons_append, List.append_assoc]
    rfl

/-- What begins like no number is refused. -/
theorem integerAs_ne_ok (kind : IntegerKind) (blanks : Blanks) {s : Spelling}
    (hminus : s.head ≠ minusByte) (hdigit : isDigit s.head = false) (rest : Bytes)
    {read : Int × Bytes} :
    integerAs kind (blanks.bytes ++ (s.bytes ++ rest)) ≠ .ok read := by
  obtain ⟨body, hbytes⟩ := s.bytes_eq_cons
  rw [integerAs, Spelling.skipBlanks_bytes, hbytes]
  simp only [List.cons_append, if_neg hminus, hdigit, Bool.false_eq_true, if_false]
  intro h
  cases h

/-- An integer of some kind is taken as itself, if all of its kind fit 64 bits. -/
theorem readsAs_integerAs {kind : IntegerKind}
    (hkind : leastInteger ≤ kind.least ∧ kind.greatest ≤ greatestInteger) :
    ReadsAs (integerAs kind) (Spelling.integerOf? kind) := by
  intro blanks s rest left i hends
  have hsome : s.integerOf? kind = some i
      ↔ s.integer? = some i ∧ kind.least ≤ i ∧ i ≤ kind.greatest := by
    rw [Spelling.integerOf?, Option.filter_eq_some_iff, decide_eq_true_iff]
  rw [hsome]
  have hother : s.head ≠ minusByte → isDigit s.head = false → s.integer? = none →
      (integerAs kind (blanks.bytes ++ (s.bytes ++ rest)) = .ok (i, left)
        ↔ (s.integer? = some i ∧ kind.least ≤ i ∧ i ≤ kind.greatest) ∧ left = rest) := by
    intro hminus hdigit hnone
    rw [hnone]
    refine ⟨fun h => (integerAs_ne_ok kind blanks hminus hdigit rest h).elim, ?_⟩
    rintro ⟨⟨h, -⟩, -⟩
    cases h
  cases s with
  | number l =>
    rw [integerAs_literal, Steps.bind_eq_ok_iff]
    constructor
    · rintro ⟨⟨n, behind⟩, hread, hof⟩
      obtain ⟨inRange, rfl, hin, rfl⟩ := integerOf_eq_ok_iff.mp hof
      obtain ⟨hinteger, rfl⟩ := (Literal.number_eq_integer_iff inRange hends).mp hread
      exact ⟨⟨hinteger, hin⟩, rfl⟩
    · rintro ⟨⟨hinteger, hin⟩, rfl⟩
      have inRange : leastInteger ≤ i ∧ i ≤ greatestInteger := by omega
      exact ⟨_, (Literal.number_eq_integer_iff inRange hends).mpr ⟨hinteger, rfl⟩,
        integerOf_eq_ok_iff.mpr ⟨inRange, rfl, hin, rfl⟩⟩
  | bool b => cases b <;> exact hother (by decide) (by decide) rfl
  | _ =>
    refine hother ?_ ?_ rfl
    · rw [Spelling.head]
      decide
    · rw [Spelling.head]
      decide

end Readers

end BootTrust.Json
