import BootTrust.Proofs.Spelling.Reading
/-
Every text can be passed over (`skipValue_spelled`). Nothing is asked of its numbers, which may have
a fraction, an exponent and any number of digits, nor of its strings, nor of the depth of its
brackets. So a member that nobody asked for never keeps a record from being read, and it never
changes what is read behind it.

The bound of the loops counts values and items. Each value needs twice its length and the inside of
a bracket one more, which is what the induction on the bound is about.
-/

set_option autoImplicit false

namespace BootTrust.Json

/-! ## Numbers -/

/-- Whether digits end where some bytes begin. -/
def EndsDigits (rest : Bytes) : Prop :=
  ∀ b, rest.head? = some b → isDigit b = false

theorem EndsValue.endsDigits {rest : Bytes} (h : EndsValue rest) : EndsDigits rest := by
  intro b hb
  rcases rest with _ | ⟨c, rest⟩
  · cases hb
  · cases hb
    exact h.not_part.1

theorem skipDigits_map {rest : Bytes} (hends : EndsDigits rest) (count : Nat) (ds : List (Fin 10)) :
    skipDigits count (ds.map Digits.byte ++ rest) = (count + ds.length, rest) := by
  induction ds generalizing count with
  | nil =>
    rcases rest with _ | ⟨b, rest⟩
    · rfl
    · rw [List.map_nil, List.nil_append, skipDigits, hends b rfl]
      rfl
  | cons d ds ih =>
    rw [List.map_cons, List.cons_append, skipDigits, (Digits.byte_all d).2.1, if_pos rfl, ih,
      List.length_cons, Nat.add_assoc, Nat.add_comm 1]

/-- No digit is a sign, and only one is a zero. -/
theorem Digits.byte_ne :
    ∀ d : Fin 10, byte d ≠ 0x2B ∧ byte d ≠ minusByte ∧ (byte d = 0x30 → d = 0) := by
  decide

/-- The digits of an exponent are passed over, from behind its sign on. -/
theorem skipExponent_digits {rest : Bytes} (hends : EndsDigits rest) (ds : Digits) :
    skipExponent (ds.bytes ++ rest) = .ok rest := by
  obtain ⟨hplus, hminus, -⟩ := Digits.byte_ne ds.first
  have hdigit := (Digits.byte_all ds.first).2.1
  rw [Digits.bytes, Digits.list, List.map_cons, List.cons_append, skipExponent]
  simp only [hplus, hminus, decide_false, Bool.or_self, Bool.false_eq_true, if_false, hdigit,
    if_true, skipDigits_map hends]

/-- An exponent begins with a letter, which is neither a digit nor a point. -/
theorem Exponent.first_byte (e : Exponent) : ∃ b more, e.bytes = b :: more
    ∧ isDigit b = false ∧ b ≠ pointByte := by
  have hletter : ∀ large : Bool, isDigit (if large then 0x45 else 0x65) = false
      ∧ (if large then 0x45 else 0x65) ≠ pointByte := by
    decide
  exact ⟨_, _, rfl, hletter e.large⟩

theorem skipExponent?_bytes {rest : Bytes} (hends : EndsDigits rest) (e : Exponent) :
    skipExponent? (e.bytes ++ rest) = .ok rest := by
  obtain ⟨large, sign, digits⟩ := e
  have hletter : ∀ large : Bool, isExponentLetter (if large then 0x45 else 0x65) = true := by decide
  have hsigned : ∀ b, (b = 0x2B || b = minusByte) = true →
      skipExponent (b :: (digits.bytes ++ rest)) = .ok rest := by
    intro b hb
    obtain ⟨hplus, hminus, -⟩ := Digits.byte_ne digits.first
    have hdigit := (Digits.byte_all digits.first).2.1
    rw [Digits.bytes, Digits.list, List.map_cons, List.cons_append, skipExponent]
    simp only [hb, if_true, hdigit, skipDigits_map hends]
  rw [Exponent.bytes, List.cons_append, List.cons_append, skipExponent?, hletter, if_pos rfl]
  rcases sign with _ | _ | _
  · exact skipExponent_digits hends digits
  · exact hsigned 0x2B (by decide)
  · exact hsigned minusByte (by decide)

/-- An exponent does not go on with digits, with or without a fraction before it, and is passed
over. So is the end of a number without one. -/
theorem skipExponent?_exponentBytes (l : Literal) {rest : Bytes} (hends : EndsValue rest) :
    EndsDigits (l.exponentBytes ++ rest) ∧ skipExponent? (l.exponentBytes ++ rest) = .ok rest
      ∧ skipAfterWhole (l.exponentBytes ++ rest) = .ok rest := by
  rw [Literal.exponentBytes]
  rcases l.exponent with _ | e
  · simp only [List.nil_append]
    refine ⟨hends.endsDigits, ?_⟩
    rcases rest with _ | ⟨b, rest⟩
    · exact ⟨rfl, rfl⟩
    · obtain ⟨-, hpoint, hletter⟩ := hends.not_part
      rw [skipAfterWhole, if_neg hpoint, skipExponent?, hletter]
      exact ⟨rfl, rfl⟩
  · have hexponent := skipExponent?_bytes hends.endsDigits e
    obtain ⟨b, more, hbytes, hdigit, hpoint⟩ := e.first_byte
    simp only
    rw [hbytes, List.cons_append] at hexponent ⊢
    refine ⟨?_, hexponent, ?_⟩
    · intro c hc
      cases hc
      exact hdigit
    · rw [skipAfterWhole, if_neg hpoint]
      exact hexponent

/-- What follows the whole part of a number does not go on with its digits, and is passed over. -/
theorem skipAfterWhole_tailBytes (l : Literal) {rest : Bytes} (hends : EndsValue rest) :
    EndsDigits (l.tailBytes ++ rest) ∧ skipAfterWhole (l.tailBytes ++ rest) = .ok rest := by
  obtain ⟨hdigits, hexponent, hwhole⟩ := skipExponent?_exponentBytes l hends
  rw [Literal.tailBytes]
  rcases l.fraction with _ | ds
  · exact ⟨hdigits, hwhole⟩
  · refine ⟨?_, ?_⟩
    · intro b hb
      cases hb
      decide
    · simp only [List.cons_append, List.append_assoc]
      rw [skipAfterWhole, if_pos rfl, Digits.bytes, skipDigits_map hdigits, Digits.list,
        List.length_cons, Nat.zero_add]
      exact hexponent

/-- Every number is passed over, from behind its sign on. -/
theorem skipNumber_spelled (l : Literal) {rest : Bytes} (hends : EndsValue rest) :
    skipNumber (l.whole.bytes ++ (l.tailBytes ++ rest)) = .ok rest := by
  have hdigit := (Digits.byte_all l.whole.first).2.1
  obtain ⟨htail, hbehind⟩ := skipAfterWhole_tailBytes l hends
  rw [Digits.bytes, Digits.list, List.map_cons, List.cons_append]
  by_cases hzero : l.whole.first = 0
  · -- a zero stands alone
    rw [hzero, l.noLeadingZero (congrArg Fin.val hzero), List.map_nil, List.nil_append]
    show skipNumber (0x30 :: (l.tailBytes ++ rest)) = _
    rcases hmore : l.tailBytes ++ rest with _ | ⟨c, more⟩
    · rw [hmore] at hbehind
      exact hbehind
    · rw [hmore] at hbehind htail
      have hzeroByte : isDigit 0x30 = true := by decide
      simp only [skipNumber, hzeroByte, htail c rfl]
      exact hbehind
  · have hne : Digits.byte l.whole.first ≠ 0x30 := fun h => hzero ((Digits.byte_ne _).2.2 h)
    unfold skipNumber
    simp only [hdigit, if_neg hne, skipDigits_map htail]
    exact hbehind

/-! ## Values -/

/-- What a text begins with, for someone who passes over it. -/
def Spelling.opening (rest : Bytes) : Spelling → Opening
  | emptyArray inside => .bracket .array (inside.bytes ++ closeArray :: rest)
  | array first more => .bracket .array (first.before.bytes ++ (first.inner.bytes
      ++ (first.after.bytes ++ (moreItems more ++ rest))))
  | emptyObject inside => .bracket .object (inside.bytes ++ closeObject :: rest)
  | object first more => .bracket .object (first.name.before.bytes
      ++ first.bytesFrom (first.value.after.bytes ++ (moreMembers more ++ rest)))
  | _ => .whole rest

theorem skipOpening_blanks (blanks : Blanks) (text : Bytes) :
    skipOpening (blanks.bytes ++ text) = skipOpening text := by
  rw [skipOpening, skipOpening, skipBlanks_append blanks.areBlank]

theorem skipOpening_word (rest : Bytes) :
    skipOpening (Utf8.encode "null" ++ rest) = .ok (.whole rest)
      ∧ skipOpening (Utf8.encode "true" ++ rest) = .ok (.whole rest)
      ∧ skipOpening (Utf8.encode "false" ++ rest) = .ok (.whole rest) := by
  obtain ⟨hnull, htrue, hfalse⟩ := encode_words
  unfold skipOpening
  rw [hnull, htrue, hfalse, List.cons_append, List.cons_append, List.cons_append,
    skipBlanks_cons (by decide), skipBlanks_cons (by decide), skipBlanks_cons (by decide)]
  simp only [word_append]
  exact ⟨rfl, rfl, rfl⟩

theorem skipOpening_literal (l : Literal) {rest : Bytes} (hends : EndsValue rest) :
    skipOpening (l.bytes ++ rest) = .ok (.whole rest) := by
  have hskip := skipNumber_spelled l hends
  unfold skipOpening
  rw [Literal.bytes]
  rcases l.negative with _ | _
  · obtain ⟨b, more, hbytes, hdigit⟩ := l.whole.first_byte
    rw [hbytes, List.cons_append] at hskip
    rw [hbytes]
    simp only [Bool.false_eq_true, if_false, List.nil_append, List.cons_append, List.append_assoc]
    rw [skipBlanks_cons (isBlankByte_of_isDigit hdigit)]
    simp only [if_neg (ne_of_isDigit hdigit (by decide : isDigit 0x6E = false)),
      if_neg (ne_of_isDigit hdigit (by decide : isDigit 0x74 = false)),
      if_neg (ne_of_isDigit hdigit (by decide : isDigit 0x66 = false)),
      if_neg (ne_of_isDigit hdigit (by decide : isDigit minusByte = false)), hdigit, if_true, hskip]
    rfl
  · simp only [if_true, List.cons_append, List.append_assoc]
    rw [skipBlanks_cons (by decide)]
    simp only [List.nil_append, hskip]
    rfl

theorem skipOpening_bytes (s : Spelling) {rest : Bytes} (hends : EndsValue rest) :
    skipOpening (s.bytes ++ rest) = .ok (s.opening rest) := by
  have harray : ∀ inside, skipOpening (openArray :: inside) = .ok (.bracket .array inside) := by
    intro inside
    rw [skipOpening, skipBlanks_cons (by decide)]
    rfl
  have hobject : ∀ inside, skipOpening (openObject :: inside) = .ok (.bracket .object inside) := by
    intro inside
    rw [skipOpening, skipBlanks_cons (by decide)]
    rfl
  cases s with
  | null => exact (skipOpening_word rest).1
  | bool b =>
    cases b with
    | true => exact (skipOpening_word rest).2.1
    | false => exact (skipOpening_word rest).2.2
  | number l => exact skipOpening_literal l hends
  | string q =>
    rw [Spelling.string_append, skipOpening, skipBlanks_cons (by decide)]
    simp only [skipString_quoted]
    rfl
  | emptyArray inside =>
    rw [Spelling.emptyArray_append, harray]
    rfl
  | array first more =>
    rw [Spelling.array_append, harray]
    rfl
  | emptyObject inside =>
    rw [Spelling.emptyObject_append, hobject]
    rfl
  | object first more =>
    rw [Spelling.object_append, hobject]
    rfl

/-! ## Brackets -/

theorem skipBounded_blanks (bound : Nat) (blanks : Blanks) (text : Bytes) :
    skipBounded bound (blanks.bytes ++ text) = skipBounded bound text := by
  cases bound with
  | zero => rfl
  | succ bound => rw [skipBounded, skipBounded, skipOpening_blanks]

/-- A bracket with something in it is passed over like its items. -/
theorem skipBounded_bracket {bound : Nat} {text inside more : Bytes} {b : Bracket} {c : UInt8}
    (hopening : skipOpening text = .ok (.bracket b inside))
    (hinside : skipBlanks inside = c :: more) (hclose : c ≠ b.close) :
    skipBounded (bound + 1) text = skipItems bound b (c :: more) := by
  rw [skipBounded, hopening]
  simp only [bind, Except.bind, hinside, if_neg hclose]

section Items

variable {b : Bracket} {bound : Nat} {text behind : Bytes} {after : Blanks}

theorem skipItems_last {rest : Bytes} (hclose : isBlankByte b.close = false)
    (hhead : b.skipHead text = .ok behind)
    (hvalue : skipBounded bound behind = .ok (after.bytes ++ b.close :: rest)) :
    skipItems (bound + 1) b text = .ok rest := by
  rw [skipItems, hhead]
  simp only [bind, Except.bind, hvalue, skipBlanks_append after.areBlank,
    skipBlanks_cons hclose, if_true]
  rfl

theorem skipItems_next {more : Bytes} (hclose : commaByte ≠ b.close)
    (hhead : b.skipHead text = .ok behind)
    (hvalue : skipBounded bound behind = .ok (after.bytes ++ commaByte :: more)) :
    skipItems (bound + 1) b text = skipItems bound b more := by
  have hblank : isBlankByte commaByte = false := by decide
  rw [skipItems, hhead]
  simp only [bind, Except.bind, hvalue, skipBlanks_append after.areBlank, skipBlanks_cons hblank,
    if_neg hclose, if_true]

end Items

theorem skipName_bytesFrom (blanks : Blanks) (m : Member Spelling) (rest : Bytes) :
    skipName (blanks.bytes ++ m.bytesFrom rest)
      = .ok (m.value.before.bytes ++ (m.value.inner.bytes ++ rest)) := by
  rw [Member.bytesFrom, skipName, skipBlanks_append blanks.areBlank, skipBlanks_cons (by decide)]
  simp only [if_true, skipString_quoted]
  exact colon_bytesBehind m rest

/-- What is passed over within a bound. The blanks before the first item are gone, those before the
others are not. -/
structure SkipsWithin (bound : Nat) : Prop where
  value : ∀ (s : Spelling) (rest : Bytes), 2 * s.bytes.length ≤ bound → EndsValue rest →
    skipBounded bound (s.bytes ++ rest) = .ok rest
  items : ∀ (blanks : Blanks) (item : Padded Spelling) (more : List (Padded Spelling))
    (rest : Bytes), 2 * (item.inner.bytes.length + (Spelling.moreItems more).length) < bound →
    skipItems bound .array (blanks.bytes ++ (item.inner.bytes
      ++ (item.after.bytes ++ (Spelling.moreItems more ++ rest)))) = .ok rest
  members : ∀ (blanks : Blanks) (m : Member Spelling) (more : List (Member Spelling))
    (rest : Bytes), 2 * (m.value.inner.bytes.length + (Spelling.moreMembers more).length) < bound →
    skipItems bound .object (blanks.bytes
      ++ m.bytesFrom (m.value.after.bytes ++ (Spelling.moreMembers more ++ rest))) = .ok rest

theorem SkipsWithin.value_succ {bound : Nat} (h : SkipsWithin bound) (s : Spelling) {rest : Bytes}
    (hbound : 2 * s.bytes.length ≤ bound + 1) (hends : EndsValue rest) :
    skipBounded (bound + 1) (s.bytes ++ rest) = .ok rest := by
  have hopening := skipOpening_bytes s hends
  cases s with
  | emptyArray inside =>
    rw [skipBounded, hopening]
    simp only [bind, Except.bind, Spelling.opening, skipBlanks_append inside.areBlank]
    rw [skipBlanks_cons (by decide)]
    rfl
  | emptyObject inside =>
    rw [skipBounded, hopening]
    simp only [bind, Except.bind, Spelling.opening, skipBlanks_append inside.areBlank]
    rw [skipBlanks_cons (by decide)]
    rfl
  | array first more =>
    obtain ⟨before, item, after⟩ := first
    obtain ⟨c, body, hbytes, -, hclose⟩ := item.exists_first_byte
    have hinside : skipBlanks (before.bytes
        ++ (item.bytes ++ (after.bytes ++ (Spelling.moreItems more ++ rest))))
        = c :: (body ++ (after.bytes ++ (Spelling.moreItems more ++ rest))) := by
      rw [Spelling.skipBlanks_bytes, hbytes]
      rfl
    have hitems := h.items .none ⟨before, item, after⟩ more rest (by
      rw [Spelling.bytes] at hbound
      simp only [List.length_cons, List.length_append] at hbound ⊢
      omega)
    rw [skipBounded_bracket hopening hinside hclose]
    simp only [hbytes] at hitems
    exact hitems
  | object first more =>
    obtain ⟨name, before, value, after⟩ := first
    have hmembers := h.members .none ⟨name, before, value, after⟩ more rest (by
      rw [Spelling.bytes] at hbound
      simp only [List.length_cons, List.length_append] at hbound ⊢
      omega)
    have hinside : ∀ m : Member Spelling, ∀ behind,
        skipBlanks (m.name.before.bytes ++ m.bytesFrom behind) = m.bytesFrom behind := by
      intro m behind
      rw [skipBlanks_append m.name.before.areBlank, Member.bytesFrom, skipBlanks_cons (by decide)]
    rw [skipBounded_bracket hopening (hinside _ _) (by decide)]
    exact hmembers
  | _ =>
    rw [skipBounded, hopening]
    rfl

theorem skipsWithin (bound : Nat) : SkipsWithin bound := by
  induction bound with
  | zero =>
    refine ⟨fun s rest hbound _ => ?_, fun _ _ _ _ hbound => absurd hbound (Nat.not_lt_zero _),
      fun _ _ _ _ hbound => absurd hbound (Nat.not_lt_zero _)⟩
    obtain ⟨b, body, hbytes, -⟩ := s.exists_first_byte
    rw [hbytes, List.length_cons] at hbound
    omega
  | succ bound ih =>
    refine ⟨fun s rest hbound hends => ih.value_succ s hbound hends, ?_, ?_⟩
    · intro blanks item more rest hbound
      have hvalue := ih.value item.inner (item.after.bytes ++ (Spelling.moreItems more ++ rest))
        (by omega) (item.after.endsValue (Spelling.endsValue_moreItems more rest))
      rw [← skipBounded_blanks bound blanks] at hvalue
      rcases more with _ | ⟨next, more⟩
      · exact skipItems_last (by decide) rfl hvalue
      · rw [Spelling.moreItems_append] at hvalue ⊢
        rw [skipItems_next (by decide) rfl hvalue]
        refine ih.items next.before next more rest ?_
        rw [Spelling.moreItems] at hbound
        simp only [List.length_cons, List.length_append] at hbound
        omega
    · intro blanks m more rest hbound
      have hhead :=
        skipName_bytesFrom blanks m (m.value.after.bytes ++ (Spelling.moreMembers more ++ rest))
      have hvalue := ih.value m.value.inner
        (m.value.after.bytes ++ (Spelling.moreMembers more ++ rest)) (by omega)
        (m.value.after.endsValue (Spelling.endsValue_moreMembers more rest))
      rw [← skipBounded_blanks bound m.value.before] at hvalue
      rcases more with _ | ⟨next, more⟩
      · exact skipItems_last (b := .object) (by decide) hhead hvalue
      · rw [Spelling.moreMembers_append] at hhead hvalue ⊢
        rw [skipItems_next (b := .object) (by decide) hhead hvalue]
        refine ih.members next.name.before next more rest ?_
        obtain ⟨name, before, value, behind⟩ := next
        rw [Spelling.moreMembers] at hbound
        simp only [List.length_cons, List.length_append] at hbound ⊢
        omega

/-- Every text is passed over, and nothing behind it is touched. -/
theorem skipValue_spelled (blanks : Blanks) (s : Spelling) {rest : Bytes} (hends : EndsValue rest) :
    skipValue (blanks.bytes ++ (s.bytes ++ rest)) = .ok rest := by
  rw [skipValue, skipBounded_blanks]
  refine (skipsWithin _).value s rest ?_ hends
  simp only [List.length_append]
  omega

end BootTrust.Json
