import BootTrust.Proofs.Spelling.Documents
/-
A text that can be read as a document is read as what it denotes, and nothing behind it is touched
(`readsAsMeant`). Its numbers have to be integers of 64 bits; all other choices of its writer are
free, and the blanks, the escapes and the order of members leave no trace.

What stands between brackets is taken by a loop, one item or member after the other. The loop
is given what is known of its state while certain items are still to come, and carries it
from the first item to the closing bracket (`items_spelled`, `members_spelled`). Every step
has to stop exactly behind its item, which is why this is part of what is proved about a
document and not a consequence of it.
-/

set_option autoImplicit false

namespace BootTrust.Json

/-! ## Bytes around a value -/

/-- The byte that a text begins with. -/
def Spelling.head : Spelling → UInt8
  | null => 0x6E
  | bool true => 0x74
  | bool false => 0x66
  | number l => if l.negative then minusByte else Digits.byte l.whole.first
  | string _ => quoteByte
  | emptyArray _ | array _ _ => openArray
  | emptyObject _ | object _ _ => openObject

theorem Spelling.bytes_eq_cons (s : Spelling) : ∃ body, s.bytes = s.head :: body := by
  cases s with
  | null => exact ⟨_, encode_words.1⟩
  | bool b =>
    cases b with
    | true => exact ⟨_, encode_words.2.1⟩
    | false => exact ⟨_, encode_words.2.2⟩
  | number l =>
    rw [bytes, Literal.bytes, head]
    rcases l.negative with _ | _
    · exact ⟨_, rfl⟩
    · exact ⟨_, rfl⟩
  | string q => exact ⟨_, by rw [bytes, Quoted.bytes]; rfl⟩
  | emptyArray inside => exact ⟨_, by rw [bytes]; rfl⟩
  | array first more => exact ⟨_, by rw [bytes]; rfl⟩
  | emptyObject inside => exact ⟨_, by rw [bytes]; rfl⟩
  | object first more => exact ⟨_, by rw [bytes]; rfl⟩

/-- A number begins with a sign or a digit. -/
theorem Spelling.head_number (l : Literal) : (number l).head = minusByte
    ∨ isDigit (number l).head = true := by
  rw [head]
  rcases l.negative with _ | _
  · exact Or.inr (Digits.byte_all l.whole.first).2.1
  · exact Or.inl rfl

/-- Only a string begins with a quotation mark. -/
theorem Spelling.eq_string_of_head {s : Spelling} (h : s.head = quoteByte) : ∃ q, s = string q := by
  cases s with
  | string q => exact ⟨q, rfl⟩
  | bool b => cases b <;> exact absurd h (by decide)
  | number l =>
    rcases head_number l with hsign | hdigit
    · exact absurd (hsign.symm.trans h) (by decide)
    · rw [h] at hdigit
      exact absurd hdigit (by decide)
  | _ =>
    rw [head] at h
    exact absurd h (by decide)

/-- A value begins with a byte that is no blank and closes no array. -/
theorem Spelling.exists_first_byte (s : Spelling) :
    ∃ b body, s.bytes = b :: body ∧ isBlankByte b = false ∧ b ≠ closeArray := by
  obtain ⟨body, hbytes⟩ := s.bytes_eq_cons
  refine ⟨s.head, body, hbytes, ?_⟩
  cases s with
  | bool b => cases b <;> exact ⟨by decide, by decide⟩
  | number l =>
    rcases head_number l with hsign | hdigit
    · rw [hsign]
      exact ⟨by decide, by decide⟩
    · refine ⟨isBlankByte_of_isDigit hdigit, fun hclose => ?_⟩
      rw [hclose] at hdigit
      exact absurd hdigit (by decide)
  | _ =>
    rw [head]
    exact ⟨by decide, by decide⟩

/-- Blanks before a value are all that is passed over. -/
theorem Spelling.skipBlanks_bytes (blanks : Blanks) (s : Spelling) (rest : Bytes) :
    skipBlanks (blanks.bytes ++ (s.bytes ++ rest)) = s.bytes ++ rest := by
  obtain ⟨b, body, hbytes, hblank, -⟩ := s.exists_first_byte
  rw [skipBlanks_append blanks.areBlank, hbytes, List.cons_append, skipBlanks_cons hblank]

theorem Blanks.endsValue (blanks : Blanks) {rest : Bytes} (h : EndsValue rest) :
    EndsValue (blanks.bytes ++ rest) := by
  obtain ⟨bytes, hblank⟩ := blanks
  rcases bytes with _ | ⟨b, bytes⟩
  · exact h
  · intro c hc
    cases hc
    exact Or.inl (hblank b List.mem_cons_self)

theorem endsValue_nil : EndsValue [] := by
  intro b hb
  cases hb

theorem Spelling.endsValue_moreItems (more : List (Padded Spelling)) (rest : Bytes) :
    EndsValue (moreItems more ++ rest) := by
  rcases more with _ | ⟨item, more⟩
  · intro b hb
    cases hb
    exact Or.inr (Or.inr (Or.inl rfl))
  · rw [moreItems]
    exact endsValue_comma _

theorem Spelling.endsValue_moreMembers (more : List (Member Spelling)) (rest : Bytes) :
    EndsValue (moreMembers more ++ rest) := by
  rcases more with _ | ⟨m, more⟩
  · intro b hb
    cases hb
    exact Or.inr (Or.inr (Or.inr rfl))
  · rw [moreMembers]
    exact endsValue_comma _

/-- The bytes of a member behind the quotation mark of its name, up to the value and with what
follows it. -/
def Member.bytesBehind (m : Member Spelling) (rest : Bytes) : Bytes :=
  m.name.after.bytes ++ colonByte :: (m.value.before.bytes ++ (m.value.inner.bytes ++ rest))

/-- The bytes of a member from the quotation mark of its name on. -/
def Member.bytesFrom (m : Member Spelling) (rest : Bytes) : Bytes :=
  quoteByte :: (m.name.inner.flatMap Piece.bytes ++ quoteByte :: m.bytesBehind rest)

theorem colon_bytesBehind (m : Member Spelling) (rest : Bytes) :
    colon (m.bytesBehind rest) = .ok (m.value.before.bytes ++ (m.value.inner.bytes ++ rest)) := by
  rw [Member.bytesBehind, colon, skipBlanks_append m.name.after.areBlank,
    skipBlanks_cons (by decide)]
  rfl

/-! A string, an array and an object, with what follows them, as a reader takes them apart: an item
from its first blank on, a member from the first blank of its name on. -/

theorem Spelling.string_append (q : Quoted) (rest : Bytes) :
    (string q).bytes ++ rest = quoteByte :: (q.flatMap Piece.bytes ++ quoteByte :: rest) := by
  rw [bytes, Quoted.bytes]
  simp only [List.append_assoc, List.cons_append, List.nil_append]

theorem Spelling.emptyArray_append (inside : Blanks) (rest : Bytes) :
    (emptyArray inside).bytes ++ rest = openArray :: (inside.bytes ++ closeArray :: rest) := by
  rw [bytes, List.cons_append, List.append_assoc, List.singleton_append]

theorem Spelling.emptyObject_append (inside : Blanks) (rest : Bytes) :
    (emptyObject inside).bytes ++ rest = openObject :: (inside.bytes ++ closeObject :: rest) := by
  rw [bytes, List.cons_append, List.append_assoc, List.singleton_append]

theorem Spelling.array_append (first : Padded Spelling) (more : List (Padded Spelling))
    (rest : Bytes) :
    (array first more).bytes ++ rest = openArray :: (first.before.bytes ++ (first.inner.bytes
      ++ (first.after.bytes ++ (moreItems more ++ rest)))) := by
  rw [bytes]
  simp only [List.append_assoc, List.cons_append]

theorem Spelling.moreItems_append (item : Padded Spelling) (more : List (Padded Spelling))
    (rest : Bytes) :
    moreItems (item :: more) ++ rest = commaByte :: (item.before.bytes ++ (item.inner.bytes
      ++ (item.after.bytes ++ (moreItems more ++ rest)))) := by
  rw [moreItems]
  simp only [List.append_assoc, List.cons_append]

theorem Spelling.object_append (first : Member Spelling) (more : List (Member Spelling))
    (rest : Bytes) :
    (object first more).bytes ++ rest = openObject :: (first.name.before.bytes
      ++ first.bytesFrom (first.value.after.bytes ++ (moreMembers more ++ rest))) := by
  rw [bytes, Padded.nameBytes, Quoted.bytes, Member.bytesFrom, Member.bytesBehind]
  simp only [List.append_assoc, List.cons_append, List.nil_append]

theorem Spelling.moreMembers_append (m : Member Spelling) (more : List (Member Spelling))
    (rest : Bytes) :
    moreMembers (m :: more) ++ rest = commaByte :: (m.name.before.bytes
      ++ m.bytesFrom (m.value.after.bytes ++ (moreMembers more ++ rest))) := by
  rw [moreMembers, Padded.nameBytes, Quoted.bytes, Member.bytesFrom, Member.bytesBehind]
  simp only [List.append_assoc, List.cons_append, List.nil_append]

/-! ## What a loop carries along -/

section Loops

variable {σ : Type} {state final : σ} {bound : Nat} {rest left : Bytes}

/-- An array is taken up to its closing bracket, if every step stops behind its item. What is known
of the state while some items are to come is known at the end for no items. -/
theorem itemLoop_spelled {step : σ → Bytes → Except Fault (σ × Bytes)}
    (holds : List (Padded Spelling) → σ → Prop)
    (hstep : ∀ item more state state' rest left, holds (item :: more) state → EndsValue rest →
      step state (item.inner.bytes ++ rest) = .ok (state', left) → left = rest ∧ holds more state')
    {item : Padded Spelling} {more : List (Padded Spelling)} (hstate : holds (item :: more) state)
    (h : itemLoop step bound state (item.inner.bytes
      ++ (item.after.bytes ++ (Spelling.moreItems more ++ rest))) = .ok (final, left)) :
    left = rest ∧ holds [] final := by
  induction bound generalizing item more state with
  | zero => cases h
  | succ bound ih =>
    rw [itemLoop] at h
    obtain ⟨⟨state', rest'⟩, hfirst, h⟩ := Steps.bind_eq_ok_iff.mp h
    obtain ⟨rfl, hnow⟩ := hstep _ _ _ _ _ _ hstate
      (item.after.endsValue (Spelling.endsValue_moreItems more rest)) hfirst
    simp only [skipBlanks_append item.after.areBlank] at h
    rcases more with _ | ⟨next, more⟩
    · rw [Spelling.moreItems, List.singleton_append, skipBlanks_cons (by decide)] at h
      cases h
      exact ⟨rfl, hnow⟩
    · have hnext : nextItem (next.before.bytes ++ (next.inner.bytes
          ++ (next.after.bytes ++ (Spelling.moreItems more ++ rest))))
          = .ok (next.inner.bytes ++ (next.after.bytes ++ (Spelling.moreItems more ++ rest))) := by
        obtain ⟨b, body, hbytes, -, hclose⟩ := next.inner.exists_first_byte
        rw [nextItem, Spelling.skipBlanks_bytes, hbytes]
        simp only [List.cons_append, if_neg hclose]
      have hcomma : ¬ commaByte = closeArray := by decide
      rw [Spelling.moreItems_append, skipBlanks_cons (by decide)] at h
      simp only [if_neg hcomma, if_true, hnext] at h
      exact ih hnow h

theorem items_spelled {step : σ → Bytes → Except Fault (σ × Bytes)}
    (holds : List (Padded Spelling) → σ → Prop)
    (hstep : ∀ item more state state' rest left, holds (item :: more) state → EndsValue rest →
      step state (item.inner.bytes ++ rest) = .ok (state', left) → left = rest ∧ holds more state')
    {first : Padded Spelling} {more : List (Padded Spelling)} (hstate : holds (first :: more) state)
    (h : items step state (first.before.bytes ++ (first.inner.bytes
      ++ (first.after.bytes ++ (Spelling.moreItems more ++ rest)))) = .ok (final, left)) :
    left = rest ∧ holds [] final := by
  rw [items, Spelling.skipBlanks_bytes] at h
  obtain ⟨b, body, hbytes, -, hclose⟩ := first.inner.exists_first_byte
  rw [hbytes] at h
  simp only [List.cons_append, if_neg hclose] at h
  rw [← List.cons_append, ← hbytes] at h
  exact itemLoop_spelled holds hstep hstate h

/-- What the loop does behind a member. -/
def loopBehind (step : σ → String → Bytes → Except Stop (σ × Bytes)) (bound : Nat) (state : σ)
    (rest : Bytes) : Except Stop (σ × Bytes) :=
  match skipBlanks rest with
  | [] => .error (.fault (.on .endInObject []))
  | b :: rest =>
    if b = closeObject then return (state, rest)
    else if b = commaByte then do memberLoop step bound state (← stopped (nextName rest))
    else .error (.fault (.on .expectedCommaOrEndOfObject (b :: rest)))

/-- One round of the loop. -/
theorem memberLoop_succ (step : σ → String → Bytes → Except Stop (σ × Bytes)) (bound : Nat)
    (state : σ) (text : Bytes) :
    memberLoop step (bound + 1) state text = (do
      let read ← stopped (string text)
      let stepped ← step state read.1 read.2
      loopBehind step bound stepped.1 stepped.2) := rfl

theorem loopBehind_last (step : σ → String → Bytes → Except Stop (σ × Bytes)) (bound : Nat)
    (state : σ) (blanks : Blanks) (rest : Bytes) :
    loopBehind step bound state (blanks.bytes ++ (Spelling.moreMembers [] ++ rest))
      = .ok (state, rest) := by
  rw [loopBehind, skipBlanks_append blanks.areBlank, Spelling.moreMembers, List.singleton_append,
    skipBlanks_cons (by decide)]
  rfl

theorem loopBehind_next (step : σ → String → Bytes → Except Stop (σ × Bytes)) (bound : Nat)
    (state : σ) (blanks : Blanks) (next : Member Spelling) (more : List (Member Spelling))
    (rest : Bytes) :
    loopBehind step bound state (blanks.bytes ++ (Spelling.moreMembers (next :: more) ++ rest))
      = memberLoop step bound state (next.name.inner.flatMap Piece.bytes ++ quoteByte ::
          next.bytesBehind (next.value.after.bytes ++ (Spelling.moreMembers more ++ rest))) := by
  have hname : ∀ tail, nextName (next.name.before.bytes ++ quoteByte :: tail) = .ok tail := by
    intro tail
    rw [nextName, skipBlanks_append next.name.before.areBlank, skipBlanks_cons (by decide)]
    rfl
  have hcomma : ¬ commaByte = closeObject := by decide
  rw [loopBehind, skipBlanks_append blanks.areBlank, Spelling.moreMembers_append, Member.bytesFrom,
    skipBlanks_cons (by decide)]
  simp only [if_neg hcomma, if_true, hname]
  rfl

/-- An object is taken up to its closing brace, if every step stops behind its member. A step is
given a name only if the name is a text. -/
theorem memberLoop_spelled {step : σ → String → Bytes → Except Stop (σ × Bytes)}
    (holds : List (Member Spelling) → σ → Prop)
    (hstep : ∀ m more name state state' rest left, holds (m :: more) state → EndsValue rest →
      m.name.inner.text? = some name → step state name (m.bytesBehind rest) = .ok (state', left) →
      left = rest ∧ holds more state')
    {m : Member Spelling} {more : List (Member Spelling)} (hstate : holds (m :: more) state)
    (h : memberLoop step bound state (m.name.inner.flatMap Piece.bytes ++ quoteByte ::
        m.bytesBehind (m.value.after.bytes ++ (Spelling.moreMembers more ++ rest)))
        = .ok (final, left)) :
    left = rest ∧ holds [] final := by
  induction bound generalizing m more state with
  | zero => cases h
  | succ bound ih =>
    rw [memberLoop_succ] at h
    obtain ⟨⟨name, rest'⟩, hname, h⟩ := Steps.bind_eq_ok_iff.mp h
    obtain ⟨rfl, htext⟩ := string_quoted (stopped_eq_ok_iff.mp hname)
    obtain ⟨⟨state', rest'⟩, hfirst, h⟩ := Steps.bind_eq_ok_iff.mp h
    obtain ⟨rfl, hnow⟩ := hstep _ _ _ _ _ _ _ hstate
      (m.value.after.endsValue (Spelling.endsValue_moreMembers more rest)) htext hfirst
    rcases more with _ | ⟨next, more⟩
    · rw [loopBehind_last] at h
      cases h
      exact ⟨rfl, hnow⟩
    · rw [loopBehind_next] at h
      exact ih hnow h

theorem members_spelled {step : σ → String → Bytes → Except Stop (σ × Bytes)}
    (holds : List (Member Spelling) → σ → Prop)
    (hstep : ∀ m more name state state' rest left, holds (m :: more) state → EndsValue rest →
      m.name.inner.text? = some name → step state name (m.bytesBehind rest) = .ok (state', left) →
      left = rest ∧ holds more state')
    {first : Member Spelling} {more : List (Member Spelling)} (hstate : holds (first :: more) state)
    (h : members step state (first.name.before.bytes
      ++ first.bytesFrom (first.value.after.bytes ++ (Spelling.moreMembers more ++ rest)))
        = .ok (final, left)) :
    left = rest ∧ holds [] final := by
  have hquote : ¬ quoteByte = closeObject := by decide
  rw [members, skipBlanks_append first.name.before.areBlank, Member.bytesFrom,
    skipBlanks_cons (by decide)] at h
  simp only [if_neg hquote, if_true] at h
  exact memberLoop_spelled holds hstep hstate h

end Loops

/-! ## Documents of one piece -/

/-- A number is read from its sign on. -/
theorem document_literal (depth : Nat) (l : Literal) (rest : Bytes) :
    document depth (l.bytes ++ rest) = (do
      let (n, rest) ← number (!l.negative) (l.whole.bytes ++ (l.tailBytes ++ rest))
      return (.number n, rest)) := by
  rw [Literal.bytes]
  rcases l.negative with _ | _
  · obtain ⟨b, more, hbytes, hdigit⟩ := l.whole.first_byte
    simp only [hbytes, Bool.false_eq_true, if_false, List.nil_append, List.cons_append,
      List.append_assoc]
    exact document_digit depth hdigit _
  · simp only [if_true, List.cons_append, List.append_assoc]
    exact document_minus depth _

/-- Brackets are only opened if the depth allows it. -/
theorem document_zero {b : UInt8} (h : b = openArray ∨ b = openObject) (body : Bytes) :
    document 0 (b :: body) = .error (.on .nestedTooDeeply (b :: body)) := by
  unfold document
  rcases h with rfl | rfl
  · rw [skipBlanks_cons (by decide)]
    rfl
  · rw [skipBlanks_cons (by decide)]
    rfl

/-! ## Documents -/

/-- What is said of a text that is read at some depth. -/
def ReadsAsMeant (depth : Nat) (s : Spelling) : Prop :=
  ∀ {rest left : Bytes} {d : Document}, s.everyNumber Literal.fitsWord = true → EndsValue rest →
    document depth (s.bytes ++ rest) = .ok (d, left) →
    left = rest ∧ s.meaning? = some d.meaning ∧ d.everyNumber Number.isKeptExactly = true

/-- What is known of the items that have been read: together with what is to come they are all that
was written. -/
structure ItemsRead (all more : List (Padded Spelling)) (ds : List Document) : Prop where
  fit : Spelling.everyItem Literal.fitsWord more = true
  exact : ∀ d ∈ ds, d.everyNumber Number.isKeptExactly = true
  meanings : Spelling.meanings? all
    = (ds.reverse.map Document.meaning ++ ·) <$> Spelling.meanings? more

/-- The same of the members of an object. -/
structure MembersRead (all more : List (Member Spelling))
    (ms : List (String × Document)) : Prop where
  fit : Spelling.everyMember Literal.fitsWord more = true
  exact : ∀ m ∈ ms, m.2.everyNumber Number.isKeptExactly = true
  named : Spelling.named? all
    = (ms.reverse.map (fun m => (m.1, m.2.meaning)) ++ ·) <$> Spelling.named? more

variable {all more : List (Padded Spelling)} {ds : List Document}

theorem ItemsRead.next {item : Padded Spelling} {d : Document} (h : ItemsRead all (item :: more) ds)
    (hmeaning : item.inner.meaning? = some d.meaning)
    (hexact : d.everyNumber Number.isKeptExactly = true) : ItemsRead all more (d :: ds) := by
  refine ⟨(Bool.and_eq_true_iff.mp h.fit).2, List.forall_mem_cons.mpr ⟨hexact, h.exact⟩, ?_⟩
  have hcons : Spelling.meanings? (item :: more)
      = (d.meaning :: ·) <$> Spelling.meanings? more := by
    rw [Spelling.meanings?, hmeaning]
    rcases Spelling.meanings? more with _ | _
    · rfl
    · rfl
  rw [h.meanings, hcons, List.reverse_cons, List.map_append]
  rcases Spelling.meanings? more with _ | _
  · rfl
  · simp only [Option.map_eq_map, Option.map_some, List.append_assoc]
    rfl

theorem MembersRead.next {all more : List (Member Spelling)} {ms : List (String × Document)}
    {m : Member Spelling} {name : String} {d : Document} (h : MembersRead all (m :: more) ms)
    (htext : m.name.inner.text? = some name) (hmeaning : m.value.inner.meaning? = some d.meaning)
    (hexact : d.everyNumber Number.isKeptExactly = true) :
    MembersRead all more ((name, d) :: ms) := by
  refine ⟨(Bool.and_eq_true_iff.mp h.fit).2, List.forall_mem_cons.mpr ⟨hexact, h.exact⟩, ?_⟩
  have hcons : Spelling.named? (m :: more) = ((name, d.meaning) :: ·) <$> Spelling.named? more := by
    rw [Spelling.named?, htext, hmeaning]
    rcases Spelling.named? more with _ | _
    · rfl
    · rfl
  rw [h.named, hcons, List.reverse_cons, List.map_append]
  rcases Spelling.named? more with _ | _
  · rfl
  · simp only [Option.map_eq_map, Option.map_some, List.append_assoc]
    rfl

/-- When nothing is to come, what has been read is the array. -/
theorem ItemsRead.meaning?_array {first : Padded Spelling} (h : ItemsRead (first :: more) [] ds) :
    (Spelling.array first more).meaning? = some (Document.array ds.reverse).meaning := by
  have hcons : (Spelling.array first more).meaning?
      = .array <$> Spelling.meanings? (first :: more) := by
    rw [Spelling.meaning?, Spelling.meanings?]
    rcases first.inner.meaning? with _ | _
    · rfl
    · rcases Spelling.meanings? more with _ | _
      · rfl
      · rfl
  rw [hcons, h.meanings, Document.meaning, Document.itemMeanings_eq_map]
  exact congrArg (fun ms => some (Meaning.array ms)) (List.append_nil _)

theorem ItemsRead.everyItem_reverse (h : ItemsRead all more ds) :
    (Document.array ds.reverse).everyNumber Number.isKeptExactly = true :=
  Document.everyItem_iff.mpr fun d hd => h.exact d (List.mem_reverse.mp hd)

/-- The reader of items, from what it does with one. -/
theorem ItemsRead.step {depth : Nat} {all : List (Padded Spelling)}
    (hdocument : ∀ s, ReadsAsMeant depth s) (item : Padded Spelling) (more : List (Padded Spelling))
    (ds ds' : List Document) (rest left : Bytes) (h : ItemsRead all (item :: more) ds)
    (hends : EndsValue rest)
    (hstep : documentItem depth ds (item.inner.bytes ++ rest) = .ok (ds', left)) :
    left = rest ∧ ItemsRead all more ds' := by
  obtain ⟨⟨d, left'⟩, hread, hstep⟩ := Steps.bind_eq_ok_iff.mp hstep
  cases hstep
  obtain ⟨hleft, hmeaning, hexact⟩ := hdocument _ (Bool.and_eq_true_iff.mp h.fit).1 hends hread
  exact ⟨hleft, h.next hmeaning hexact⟩

theorem MembersRead.meaning?_object {first : Member Spelling} {more : List (Member Spelling)}
    {ms : List (String × Document)} (h : MembersRead (first :: more) [] ms) :
    (Spelling.object first more).meaning? = some (Document.object ms.reverse).meaning := by
  have hcons : (Spelling.object first more).meaning?
      = (fun ms => .object (Spelling.family ms)) <$> Spelling.named? (first :: more) := by
    rw [Spelling.meaning?, Spelling.named?]
    rcases first.name.inner.text? with _ | _
    · rfl
    · rcases first.value.inner.meaning? with _ | _
      · rfl
      · rcases Spelling.named? more with _ | _
        · rfl
        · rfl
  rw [hcons, h.named, Document.meaning, Document.memberMeanings_eq_map]
  exact congrArg (fun ms => some (Meaning.object (Spelling.family ms))) (List.append_nil _)

theorem MembersRead.everyMember_reverse {all more : List (Member Spelling)}
    {ms : List (String × Document)} (h : MembersRead all more ms) :
    (Document.object ms.reverse).everyNumber Number.isKeptExactly = true :=
  Document.everyMember_iff.mpr fun m hm => h.exact m (List.mem_reverse.mp hm)

theorem MembersRead.step {depth : Nat} {all : List (Member Spelling)}
    (hdocument : ∀ s, ReadsAsMeant depth s) (m : Member Spelling) (more : List (Member Spelling))
    (name : String) (ms ms' : List (String × Document)) (rest left : Bytes)
    (h : MembersRead all (m :: more) ms) (hends : EndsValue rest)
    (htext : m.name.inner.text? = some name)
    (hstep : documentMember depth ms name (m.bytesBehind rest) = .ok (ms', left)) :
    left = rest ∧ MembersRead all more ms' := by
  obtain ⟨behind, hcolon, hvalue⟩ := Steps.bind_eq_ok_iff.mp hstep
  rw [stopped_eq_ok_iff, colon_bytesBehind] at hcolon
  obtain rfl := Except.ok.inj hcolon
  obtain ⟨⟨d, left'⟩, hread, hstate⟩ := Steps.bind_eq_ok_iff.mp hvalue
  cases hstate
  rw [stopped_eq_ok_iff, document_blanks _ m.value.before.areBlank] at hread
  obtain ⟨hleft, hmeaning, hexact⟩ := hdocument _ (Bool.and_eq_true_iff.mp h.fit).1 hends hread
  exact ⟨hleft, h.next htext hmeaning hexact⟩

theorem readsAsMeant_number (depth : Nat) (l : Literal) : ReadsAsMeant depth (.number l) := by
  intro rest left d hfit hends h
  obtain ⟨n, hread, hvalue, hexact⟩ := Literal.number_of_fitsWord hfit hends
  rw [Spelling.bytes, document_literal,
    Literal.tailBytes_of_isInteger (Literal.fitsWord_iff.mp hfit).1, List.nil_append, hread] at h
  cases h
  exact ⟨rfl, by rw [Spelling.meaning?, Document.meaning, hvalue], hexact⟩

theorem readsAsMeant_string (depth : Nat) (q : Quoted) : ReadsAsMeant depth (.string q) := by
  intro rest left d _ _ h
  rw [Spelling.string_append, document_quote] at h
  obtain ⟨⟨s, left'⟩, hread, h⟩ := Steps.bind_eq_ok_iff.mp h
  cases h
  obtain ⟨hleft, htext⟩ := string_quoted hread
  exact ⟨hleft, by rw [Spelling.meaning?, htext]; rfl, rfl⟩

theorem readsAsMeant_word (depth : Nat) :
    ReadsAsMeant depth .null ∧ ∀ b, ReadsAsMeant depth (.bool b) := by
  refine ⟨fun {rest left d} _ _ h => ?_, fun b {rest left d} _ _ h => ?_⟩
  · rw [Spelling.bytes, (document_word depth rest).1] at h
    cases h
    exact ⟨rfl, rfl, rfl⟩
  · cases b with
    | true =>
      rw [Spelling.bytes, (document_word depth rest).2.1] at h
      cases h
      exact ⟨rfl, rfl, rfl⟩
    | false =>
      rw [Spelling.bytes, (document_word depth rest).2.2] at h
      cases h
      exact ⟨rfl, rfl, rfl⟩

/-- A text whose numbers are integers of 64 bits is read as what it denotes, if it is read at all,
and the reader stops behind it. All its numbers are kept exactly. -/
theorem readsAsMeant (depth : Nat) (s : Spelling) : ReadsAsMeant depth s := by
  induction depth generalizing s with
  | zero =>
    intro rest left d hfit hends h
    cases s with
    | null => exact (readsAsMeant_word 0).1 hfit hends h
    | bool b => exact (readsAsMeant_word 0).2 b hfit hends h
    | number l => exact readsAsMeant_number 0 l hfit hends h
    | string q => exact readsAsMeant_string 0 q hfit hends h
    -- no bracket may be opened
    | emptyArray inside =>
      rw [Spelling.emptyArray_append, document_zero (Or.inl rfl)] at h
      cases h
    | array first more =>
      rw [Spelling.array_append, document_zero (Or.inl rfl)] at h
      cases h
    | emptyObject inside =>
      rw [Spelling.emptyObject_append, document_zero (Or.inr rfl)] at h
      cases h
    | object first more =>
      rw [Spelling.object_append, document_zero (Or.inr rfl)] at h
      cases h
  | succ depth ih =>
    intro rest left d hfit hends h
    cases s with
    | null => exact (readsAsMeant_word _).1 hfit hends h
    | bool b => exact (readsAsMeant_word _).2 b hfit hends h
    | number l => exact readsAsMeant_number _ l hfit hends h
    | string q => exact readsAsMeant_string _ q hfit hends h
    | emptyArray inside =>
      rw [Spelling.emptyArray_append, document_array, items, skipBlanks_append inside.areBlank,
        skipBlanks_cons (by decide)] at h
      cases h
      exact ⟨rfl, rfl, rfl⟩
    | array first more =>
      rw [Spelling.array_append, document_array] at h
      obtain ⟨⟨ds, left'⟩, hitems, h⟩ := Steps.bind_eq_ok_iff.mp h
      cases h
      have hstart : ItemsRead (first :: more) (first :: more) [] := ⟨hfit, by simp, by simp⟩
      obtain ⟨hleft, hread⟩ := items_spelled _ (ItemsRead.step ih) hstart hitems
      exact ⟨hleft, hread.meaning?_array, hread.everyItem_reverse⟩
    | emptyObject inside =>
      rw [Spelling.emptyObject_append, document_object, members, skipBlanks_append inside.areBlank,
        skipBlanks_cons (by decide)] at h
      cases h
      exact ⟨rfl, rfl, rfl⟩
    | object first more =>
      rw [Spelling.object_append, document_object] at h
      split at h
      · cases h
      · next ms left' hmembers =>
        cases h
        have hstart : MembersRead (first :: more) (first :: more) [] := ⟨hfit, by simp, by simp⟩
        obtain ⟨hleft, hread⟩ := members_spelled _ (MembersRead.step ih) hstart hmembers
        exact ⟨hleft, hread.meaning?_object, hread.everyMember_reverse⟩

end BootTrust.Json
