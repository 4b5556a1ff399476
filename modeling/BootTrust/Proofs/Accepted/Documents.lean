import BootTrust.Proofs.Accepted.Strings
import BootTrust.Proofs.Spelling.Reading
/-
Documents and values that are passed over begin with a value as the grammar has it
(`begins_of_document`, `begins_of_skipValue`). Both kinds of reader look at the first byte in the
same way, and what is one piece to the one is one piece to the other (`skipOpening_of_document`), so
words, numbers and strings are dealt with once (`skipOpening_taken`).

Brackets are taken by four loops, two for documents and two for what is passed over. They differ in
how an item is taken and how they find the next one. What they have in common is what can follow an
item or a member, the closing bracket or a comma with another one, and this is what the loops are
taken apart into (`EndsArray`, `EndsObject`).
-/

set_option autoImplicit false

namespace BootTrust.Json

open Utf8 (IsText)

/-! ## Values, items and members at the front of a text -/

/-- Two stretches of blanks. -/
def Blanks.append (first second : Blanks) : Blanks :=
  ⟨first.bytes ++ second.bytes, fun b hb =>
    (List.mem_append.mp hb).elim (first.areBlank b) (second.areBlank b)⟩

/-- A value stands at the front of a text, with blanks before it, and a text follows. -/
def Begins (text left : Bytes) : Prop :=
  IsText left ∧ ∃ (before : Blanks) (s : Spelling), text = before.bytes ++ (s.bytes ++ left)

/-- What follows an item of an array, up to its closing bracket. -/
def EndsArray (text left : Bytes) : Prop :=
  IsText left ∧ ∃ (after : Blanks) (more : List (Padded Spelling)),
    text = after.bytes ++ (Spelling.moreItems more ++ left)

/-- A member stands at the front of a text, from the blanks before its name to the end of its
value. -/
def BeginsMember (text left : Bytes) : Prop :=
  IsText left ∧ ∃ m : Member Spelling, text = m.name.before.bytes ++ m.bytesFrom left

/-- What follows a member of an object, up to its closing brace. -/
def EndsObject (text left : Bytes) : Prop :=
  IsText left ∧ ∃ (after : Blanks) (more : List (Member Spelling)),
    text = after.bytes ++ (Spelling.moreMembers more ++ left)

section Front

variable {text rest more left : Bytes}

/-- Behind blanks and a byte of ASCII a text goes on. -/
theorem exists_blanks_cons {b : UInt8} (htext : IsText text) (h : skipBlanks text = b :: more)
    (hb : b.toNat < 0x80) : IsText more ∧ ∃ blanks : Blanks, text = blanks.bytes ++ b :: more := by
  obtain ⟨blanks, hblanks, hbehind⟩ := exists_blanks htext
  rw [h] at hblanks hbehind
  exact ⟨hbehind.tail hb, blanks, hblanks⟩

theorem Begins.of_skipBlanks (htext : IsText text) (h : Begins (skipBlanks text) left) :
    Begins text left := by
  obtain ⟨blanks, hblanks, -⟩ := exists_blanks htext
  obtain ⟨hleft, before, s, hs⟩ := h
  exact ⟨hleft, blanks.append before, s, by rw [hblanks, hs, Blanks.append, List.append_assoc]⟩

theorem BeginsMember.of_skipBlanks (htext : IsText text) (h : BeginsMember (skipBlanks text) left) :
    BeginsMember text left := by
  obtain ⟨blanks, hblanks, -⟩ := exists_blanks htext
  obtain ⟨hleft, m, hm⟩ := h
  refine ⟨hleft, ⟨⟨blanks.append m.name.before, m.name.inner, m.name.after⟩, m.value⟩, ?_⟩
  rw [hblanks, hm, Blanks.append, List.append_assoc]
  rfl

theorem EndsArray.closed (htext : IsText text) (h : skipBlanks text = closeArray :: left) :
    EndsArray text left := by
  obtain ⟨hleft, blanks, hblanks⟩ := exists_blanks_cons htext h (by decide)
  exact ⟨hleft, blanks, [], hblanks⟩

theorem EndsArray.comma (htext : IsText text) (h : skipBlanks text = commaByte :: more)
    (hitem : Begins more rest) (hends : EndsArray rest left) : EndsArray text left := by
  obtain ⟨-, blanks, rfl⟩ := exists_blanks_cons htext h (by decide)
  obtain ⟨-, before, s, rfl⟩ := hitem
  obtain ⟨hleft, after, items, rfl⟩ := hends
  exact ⟨hleft, blanks, ⟨before, s, after⟩ :: items, by rw [Spelling.moreItems_append]⟩

/-- An array with an item in it is a value. -/
theorem Begins.array (hitem : Begins text rest) (hends : EndsArray rest left) :
    ∃ s : Spelling, openArray :: text = s.bytes ++ left := by
  obtain ⟨-, before, s, rfl⟩ := hitem
  obtain ⟨-, after, items, rfl⟩ := hends
  exact ⟨.array ⟨before, s, after⟩ items,
    (Spelling.array_append ⟨before, s, after⟩ items left).symm⟩

theorem EndsObject.closed (htext : IsText text) (h : skipBlanks text = closeObject :: left) :
    EndsObject text left := by
  obtain ⟨hleft, blanks, hblanks⟩ := exists_blanks_cons htext h (by decide)
  exact ⟨hleft, blanks, [], hblanks⟩

theorem EndsObject.comma (htext : IsText text) (h : skipBlanks text = commaByte :: more)
    (hmember : BeginsMember more rest) (hends : EndsObject rest left) : EndsObject text left := by
  obtain ⟨-, blanks, rfl⟩ := exists_blanks_cons htext h (by decide)
  obtain ⟨-, m, rfl⟩ := hmember
  obtain ⟨hleft, after, members, rfl⟩ := hends
  refine ⟨hleft, blanks, ⟨m.name, m.value.before, m.value.inner, after⟩ :: members, ?_⟩
  rw [Spelling.moreMembers_append]
  rfl

/-- An object with a member in it is a value. -/
theorem BeginsMember.object (hmember : BeginsMember text rest) (hends : EndsObject rest left) :
    ∃ s : Spelling, openObject :: text = s.bytes ++ left := by
  obtain ⟨-, m, rfl⟩ := hmember
  obtain ⟨-, after, members, rfl⟩ := hends
  have hbytes := Spelling.object_append ⟨m.name, m.value.before, m.value.inner, after⟩ members left
  exact ⟨_, hbytes.symm⟩

theorem colon_taken (htext : IsText text) (h : colon text = .ok left) :
    IsText left ∧ ∃ blanks : Blanks, text = blanks.bytes ++ colonByte :: left := by
  rw [colon] at h
  split at h
  · cases h
  · next b behind hskip =>
    split at h
    · next hcolon =>
      cases h
      rw [hcolon] at hskip
      exact exists_blanks_cons htext hskip (by decide)
    · cases h

/-- A member is a name, a colon and a value. -/
theorem BeginsMember.of_name {q : Quoted} {behind : Bytes} (hbehind : IsText behind)
    (hcolon : colon behind = .ok more) (hvalue : Begins more left) :
    BeginsMember (quoteByte :: (q.flatMap Piece.bytes ++ quoteByte :: behind)) left := by
  obtain ⟨-, after, rfl⟩ := colon_taken hbehind hcolon
  obtain ⟨hleft, before, s, rfl⟩ := hvalue
  exact ⟨hleft, ⟨⟨.none, q, after⟩, before, s, .none⟩, rfl⟩

end Front

/-! ## Brackets without anything in them -/

/-- The byte that opens a bracket. -/
def Bracket.first : Bracket → UInt8
  | .array => openArray
  | .object => openObject

/-- A bracket with nothing in it is a value. -/
theorem Bracket.empty {b : Bracket} {inside left : Bytes} (hinside : IsText inside)
    (h : skipBlanks inside = b.close :: left) :
    IsText left ∧ ∃ s : Spelling, b.first :: inside = s.bytes ++ left := by
  cases b with
  | array =>
    obtain ⟨hleft, blanks, rfl⟩ := exists_blanks_cons hinside h (by decide)
    exact ⟨hleft, .emptyArray blanks, (Spelling.emptyArray_append blanks left).symm⟩
  | object =>
    obtain ⟨hleft, blanks, rfl⟩ := exists_blanks_cons hinside h (by decide)
    exact ⟨hleft, .emptyObject blanks, (Spelling.emptyObject_append blanks left).symm⟩

/-! ## The loops of a reader -/

theorem nextItem_eq_ok {text next : Bytes} (h : nextItem text = .ok next) :
    next = skipBlanks text := by
  rw [nextItem] at h
  split at h
  · cases h
  · next b behind hskip =>
    split at h
    · cases h
    · cases h
      exact hskip.symm

theorem nextName_eq_ok {text next : Bytes} (h : nextName text = .ok next) :
    skipBlanks text = quoteByte :: next := by
  rw [nextName] at h
  split at h
  · cases h
  · next b behind hskip =>
    split at h
    · next hquote =>
      cases h
      exact hquote ▸ hskip
    · split at h
      · cases h
      · cases h

section Loops

variable {σ : Type} {state final : σ} {bound : Nat} {text left : Bytes}

theorem itemLoop_taken {step : σ → Bytes → Except Fault (σ × Bytes)}
    (hstep : ∀ state text state' left, IsText text → step state text = .ok (state', left) →
      Begins text left) (htext : IsText text)
    (h : itemLoop step bound state text = .ok (final, left)) :
    ∃ rest, Begins text rest ∧ EndsArray rest left := by
  induction bound generalizing state text with
  | zero => cases h
  | succ bound ih =>
    rw [itemLoop] at h
    obtain ⟨⟨state', rest⟩, hfirst, h⟩ := Steps.bind_eq_ok_iff.mp h
    have hitem := hstep _ _ _ _ htext hfirst
    refine ⟨rest, hitem, ?_⟩
    simp only at h
    split at h
    · cases h
    next b behind hskip =>
      split at h
      · next hclose =>
        cases h
        exact .closed hitem.1 (hclose ▸ hskip)
      split at h
      · next hcomma =>
        rw [hcomma] at hskip
        obtain ⟨hbehind, -⟩ := exists_blanks_cons hitem.1 hskip (by decide)
        obtain ⟨next, hnext, h⟩ := Steps.bind_eq_ok_iff.mp h
        obtain ⟨-, -, hmore⟩ := exists_blanks hbehind
        rw [nextItem_eq_ok hnext] at h
        obtain ⟨rest', hsecond, hends⟩ := ih hmore h
        exact .comma hitem.1 hskip (.of_skipBlanks hbehind hsecond) hends
      · cases h

/-- An array is taken from its opening bracket on, if every step takes a value. -/
theorem items_taken {step : σ → Bytes → Except Fault (σ × Bytes)}
    (hstep : ∀ state text state' left, IsText text → step state text = .ok (state', left) →
      Begins text left) (htext : IsText text) (h : items step state text = .ok (final, left)) :
    IsText left ∧ ∃ s : Spelling, openArray :: text = s.bytes ++ left := by
  rw [items] at h
  split at h
  · cases h
  next b behind hskip =>
    split at h
    · next hclose =>
      cases h
      exact Bracket.empty (b := .array) htext (by rw [hskip, hclose]; rfl)
    · obtain ⟨-, -, hinside⟩ := exists_blanks htext
      rw [← hskip] at h
      obtain ⟨rest, hitem, hends⟩ := itemLoop_taken hstep hinside h
      exact ⟨hends.1, Begins.array (.of_skipBlanks htext hitem) hends⟩

/-- What a step does with a member, from behind its name on. -/
def TakesMember (step : σ → String → Bytes → Except Stop (σ × Bytes)) : Prop :=
  ∀ {state name text state' left}, IsText text → step state name text = .ok (state', left) →
    ∃ behind, colon text = .ok behind ∧ Begins behind left

theorem memberLoop_taken {step : σ → String → Bytes → Except Stop (σ × Bytes)}
    (hstep : TakesMember step) (htext : IsText text)
    (h : memberLoop step bound state text = .ok (final, left)) :
    ∃ rest, BeginsMember (quoteByte :: text) rest ∧ EndsObject rest left := by
  induction bound generalizing state text with
  | zero => cases h
  | succ bound ih =>
    rw [memberLoop] at h
    obtain ⟨⟨name, behind⟩, hname, h⟩ := Steps.bind_eq_ok_iff.mp h
    obtain ⟨hbehind, q, hq⟩ :=
      skipString_taken htext (skipString_of_string (stopped_eq_ok_iff.mp hname))
    obtain ⟨⟨state', rest⟩, hfirst, h⟩ := Steps.bind_eq_ok_iff.mp h
    obtain ⟨value, hcolon, hvalue⟩ := hstep hbehind hfirst
    have hmember : BeginsMember (quoteByte :: text) rest := hq ▸ .of_name hbehind hcolon hvalue
    refine ⟨rest, hmember, ?_⟩
    simp only at h
    split at h
    · cases h
    next b behind hskip =>
      split at h
      · next hclose =>
        cases h
        exact .closed hmember.1 (hclose ▸ hskip)
      split at h
      · next hcomma =>
        rw [hcomma] at hskip
        obtain ⟨hbehind, -⟩ := exists_blanks_cons hmember.1 hskip (by decide)
        obtain ⟨next, hnext, h⟩ := Steps.bind_eq_ok_iff.mp h
        have hquote := nextName_eq_ok (stopped_eq_ok_iff.mp hnext)
        obtain ⟨hmore, -⟩ := exists_blanks_cons hbehind hquote (by decide)
        obtain ⟨rest', hsecond, hends⟩ := ih hmore h
        rw [← hquote] at hsecond
        exact .comma hmember.1 hskip (.of_skipBlanks hbehind hsecond) hends
      · cases h

/-- An object is taken from its opening brace on, if every step takes a member. -/
theorem members_taken {step : σ → String → Bytes → Except Stop (σ × Bytes)}
    (hstep : TakesMember step) (htext : IsText text)
    (h : members step state text = .ok (final, left)) :
    IsText left ∧ ∃ s : Spelling, openObject :: text = s.bytes ++ left := by
  rw [members] at h
  split at h
  · cases h
  next b behind hskip =>
    split at h
    · next hclose =>
      cases h
      exact Bracket.empty (b := .object) htext (by rw [hskip, hclose]; rfl)
    split at h
    · next hquote =>
      rw [hquote] at hskip
      obtain ⟨hinside, -⟩ := exists_blanks_cons htext hskip (by decide)
      obtain ⟨rest, hmember, hends⟩ := memberLoop_taken hstep hinside h
      rw [← hskip] at hmember
      exact ⟨hends.1, BeginsMember.object (.of_skipBlanks htext hmember) hends⟩
    · cases h

end Loops

/-! ## What a value begins with -/

theorem word_taken {letters text left : Bytes} (h : word letters text = .ok left) :
    text = letters ++ left := by
  induction letters generalizing text with
  | nil =>
    cases h
    rfl
  | cons l letters ih =>
    rcases text with _ | ⟨b, text⟩
    · cases h
    · rw [word] at h
      split at h
      · next hb => rw [hb, ih h, List.cons_append]
      · cases h

/-- What is one piece is a value, and what is a bracket begins with one. -/
def Opening.Taken (text : Bytes) : Opening → Prop
  | .whole left => Begins text left
  | .bracket b inside => IsText inside ∧ ∃ before : Blanks, text = before.bytes ++ b.first :: inside

theorem skipOpening_taken {text : Bytes} {opening : Opening} (htext : IsText text)
    (h : skipOpening text = .ok opening) : opening.Taken text := by
  obtain ⟨hnull, htrue, hfalse⟩ := encode_words
  -- a value of one piece, from the first byte that is no blank on
  have hvalue : ∀ {left : Bytes} (s : Spelling), skipBlanks text = s.bytes ++ left → IsText left →
      Begins text left := by
    intro left s hs hleft
    exact .of_skipBlanks htext ⟨hleft, .none, s, hs⟩
  have hword : ∀ {b : UInt8} {letters rest : Bytes} (s : Spelling), s.bytes = b :: letters →
      ((b :: letters).all fun c => c.toNat < 0x80) = true → skipBlanks text = b :: rest →
      Opening.whole <$> word letters rest = .ok opening → opening.Taken text := by
    intro b letters rest s hs hascii hskip h
    obtain ⟨left, hread, rfl⟩ := Steps.map_eq_ok_iff.mp h
    obtain ⟨-, -, hall⟩ := exists_blanks htext
    rw [hskip, word_taken hread, ← List.cons_append] at hall
    have hfront : ∀ c ∈ b :: letters, c.toNat < 0x80 := fun c hc =>
      of_decide_eq_true (List.all_eq_true.mp hascii c hc)
    refine hvalue s ?_ (hall.of_ascii_append hfront)
    rw [hskip, word_taken hread, hs, List.cons_append]
  have hnumber : ∀ {rest : Bytes} (negative : Bool), IsText rest →
      skipBlanks text = (if negative then [minusByte] else []) ++ rest →
      Opening.whole <$> skipNumber rest = .ok opening → opening.Taken text := by
    intro rest negative hrest hskip h
    obtain ⟨left, hread, rfl⟩ := Steps.map_eq_ok_iff.mp h
    obtain ⟨hleft, l, rfl, rfl⟩ := skipNumber_taken hrest hread negative
    refine hvalue (.number l) ?_ hleft
    rw [hskip, Spelling.bytes, Literal.bytes]
    simp only [List.append_assoc]
  rw [skipOpening] at h
  split at h
  · cases h
  next b rest hskip =>
    split at h
    · next hb =>
      subst hb
      exact hword .null hnull rfl hskip h
    split at h
    · next hb =>
      subst hb
      exact hword (.bool true) htrue rfl hskip h
    split at h
    · next hb =>
      subst hb
      exact hword (.bool false) hfalse rfl hskip h
    split at h
    · next hb =>
      subst hb
      obtain ⟨hrest, -⟩ := exists_blanks_cons htext hskip (by decide)
      exact hnumber true hrest hskip h
    split at h
    · obtain ⟨-, -, hall⟩ := exists_blanks htext
      rw [hskip] at hall
      exact hnumber false hall hskip h
    split at h
    · next hb =>
      subst hb
      obtain ⟨hrest, -⟩ := exists_blanks_cons htext hskip (by decide)
      obtain ⟨left, hread, rfl⟩ := Steps.map_eq_ok_iff.mp h
      obtain ⟨hleft, q, rfl⟩ := skipString_taken hrest hread
      exact hvalue (.string q) (hskip.trans (Spelling.string_append q left).symm) hleft
    split at h
    · next hb =>
      subst hb
      cases h
      exact exists_blanks_cons htext hskip (by decide)
    split at h
    · next hb =>
      subst hb
      cases h
      exact exists_blanks_cons htext hskip (by decide)
    · cases h

/-! ## Documents -/

/-- A document that is read is one piece, which is passed over as one, or it is a bracket. -/
theorem skipOpening_of_document {depth : Nat} {text left : Bytes} {d : Document}
    (h : document depth text = .ok (d, left)) :
    skipOpening text = .ok (.whole left)
      ∨ (∃ below inside ds, depth = below + 1 ∧ skipOpening text = .ok (.bracket .array inside)
        ∧ items (documentItem below) [] inside = .ok (ds, left))
      ∨ ∃ below inside ms, depth = below + 1 ∧ skipOpening text = .ok (.bracket .object inside)
        ∧ members (documentMember below) [] inside = .ok (ms, left) := by
  unfold document at h
  unfold skipOpening
  rcases hskip : skipBlanks text with _ | ⟨b, rest⟩
  · simp only [hskip] at h
    cases h
  simp only [hskip] at h ⊢
  have hword : ∀ {letters : Bytes} {value : Document},
      (word letters rest >>= fun rest => pure (value, rest)) = Except.ok (d, left) →
      Opening.whole <$> word letters rest = .ok (.whole left) := by
    intro letters value h
    obtain ⟨left', hread, h⟩ := Steps.bind_eq_ok_iff.mp h
    cases h
    rw [hread]
    rfl
  have hnumber : ∀ {positive : Bool} {rest : Bytes},
      (number positive rest >>= fun read => pure (Document.number read.1, read.2))
        = Except.ok (d, left) → Opening.whole <$> skipNumber rest = .ok (.whole left) := by
    intro positive rest h
    obtain ⟨⟨n, left'⟩, hread, h⟩ := Steps.bind_eq_ok_iff.mp h
    cases h
    rw [skipNumber_of_number hread]
    rfl
  by_cases hnull : b = 0x6E
  · rw [if_pos hnull] at h ⊢
    exact Or.inl (hword h)
  rw [if_neg hnull] at h ⊢
  by_cases htrue : b = 0x74
  · rw [if_pos htrue] at h ⊢
    exact Or.inl (hword h)
  rw [if_neg htrue] at h ⊢
  by_cases hfalse : b = 0x66
  · rw [if_pos hfalse] at h ⊢
    exact Or.inl (hword h)
  rw [if_neg hfalse] at h ⊢
  by_cases hminus : b = minusByte
  · rw [if_pos hminus] at h ⊢
    exact Or.inl (hnumber h)
  rw [if_neg hminus] at h ⊢
  by_cases hdigit : isDigit b = true
  · rw [if_pos hdigit] at h ⊢
    exact Or.inl (hnumber h)
  rw [if_neg hdigit] at h ⊢
  by_cases hquote : b = quoteByte
  · rw [if_pos hquote] at h ⊢
    obtain ⟨⟨s, left'⟩, hread, h⟩ := Steps.bind_eq_ok_iff.mp h
    cases h
    rw [skipString_of_string hread]
    exact Or.inl rfl
  rw [if_neg hquote] at h ⊢
  by_cases harray : b = openArray
  · rw [if_pos harray] at h ⊢
    rcases depth with _ | below
    · cases h
    · obtain ⟨⟨ds, left'⟩, hitems, h⟩ := Steps.bind_eq_ok_iff.mp h
      cases h
      exact Or.inr (Or.inl ⟨below, rest, ds, rfl, rfl, hitems⟩)
  rw [if_neg harray] at h ⊢
  by_cases hobject : b = openObject
  · rw [if_pos hobject] at h ⊢
    rcases depth with _ | below
    · cases h
    · simp only at h
      split at h
      · cases h
      · next ms left' hmembers =>
        cases h
        exact Or.inr (Or.inr ⟨below, rest, ms, rfl, rfl, hmembers⟩)
  · rw [if_neg hobject] at h
    cases h

/-- A bracket that is taken from its first byte on is a value. -/
theorem begins_of_bracket {b : Bracket} {text inside left : Bytes} (htext : IsText text)
    (hopening : skipOpening text = .ok (.bracket b inside))
    (h : IsText inside → IsText left ∧ ∃ s : Spelling, b.first :: inside = s.bytes ++ left) :
    Begins text left := by
  obtain ⟨hinside, before, rfl⟩ := skipOpening_taken htext hopening
  obtain ⟨hleft, s, hs⟩ := h hinside
  exact ⟨hleft, before, s, by rw [hs]⟩

/-- A document that is read is a value. -/
theorem begins_of_document {depth : Nat} {text left : Bytes} {d : Document} (htext : IsText text)
    (h : document depth text = .ok (d, left)) : Begins text left := by
  induction depth generalizing text left d with
  | zero =>
    rcases skipOpening_of_document h with hpiece | ⟨_, _, _, hdepth, -⟩ | ⟨_, _, _, hdepth, -⟩
    · exact skipOpening_taken htext hpiece
    · cases hdepth
    · cases hdepth
  | succ depth ih =>
    rcases skipOpening_of_document h with hpiece | ⟨below, inside, ds, hdepth, hopening, hitems⟩
      | ⟨below, inside, ms, hdepth, hopening, hmembers⟩
    · exact skipOpening_taken htext hpiece
    · cases hdepth
      refine begins_of_bracket htext hopening fun hinside => items_taken ?_ hinside hitems
      intro ds text ds' left htext hstep
      obtain ⟨⟨d, left'⟩, hread, hstep⟩ := Steps.bind_eq_ok_iff.mp hstep
      cases hstep
      exact ih htext hread
    · cases hdepth
      refine begins_of_bracket htext hopening fun hinside => members_taken ?_ hinside hmembers
      intro ms name text ms' left htext hstep
      obtain ⟨behind, hcolon, hstep⟩ := Steps.bind_eq_ok_iff.mp hstep
      obtain ⟨⟨d, left'⟩, hread, hstep⟩ := Steps.bind_eq_ok_iff.mp hstep
      cases hstep
      have hcolon := stopped_eq_ok_iff.mp hcolon
      exact ⟨behind, hcolon, ih (colon_taken htext hcolon).1 (stopped_eq_ok_iff.mp hread)⟩

/-! ## Values that are passed over -/

/-- What is passed over within a bound is a value, or it is what stands in a bracket. -/
structure TakesWithin (bound : Nat) : Prop where
  value : ∀ {text left : Bytes}, IsText text → skipBounded bound text = .ok left → Begins text left
  items : ∀ {text left : Bytes}, IsText text → skipItems bound .array text = .ok left →
    ∃ rest, Begins text rest ∧ EndsArray rest left
  members : ∀ {text left : Bytes}, IsText text → skipItems bound .object text = .ok left →
    ∃ rest, BeginsMember text rest ∧ EndsObject rest left

/-- A name is passed over with its colon. -/
theorem skipName_taken {text value left : Bytes} (htext : IsText text)
    (h : skipName text = .ok value) (hvalue : IsText value → Begins value left) :
    BeginsMember text left := by
  rw [skipName] at h
  split at h
  · cases h
  next b behind hskip =>
    split at h
    · next hquote =>
      rw [hquote] at hskip
      obtain ⟨hname, -⟩ := exists_blanks_cons htext hskip (by decide)
      obtain ⟨rest, hstring, hcolon⟩ := Steps.bind_eq_ok_iff.mp h
      obtain ⟨hrest, q, hq⟩ := skipString_taken hname hstring
      refine .of_skipBlanks htext ?_
      rw [hskip, hq]
      exact .of_name hrest hcolon (hvalue (colon_taken hrest hcolon).1)
    · cases h

theorem TakesWithin.bracket {bound : Nat} (h : TakesWithin bound) {b : Bracket}
    {inside left : Bytes} (hinside : IsText inside)
    (hitems : skipItems bound b (skipBlanks inside) = .ok left) :
    IsText left ∧ ∃ s : Spelling, b.first :: inside = s.bytes ++ left := by
  obtain ⟨-, -, hskipped⟩ := exists_blanks hinside
  cases b with
  | array =>
    obtain ⟨rest, hitem, hends⟩ := h.items hskipped hitems
    exact ⟨hends.1, Begins.array (.of_skipBlanks hinside hitem) hends⟩
  | object =>
    obtain ⟨rest, hmember, hends⟩ := h.members hskipped hitems
    exact ⟨hends.1, BeginsMember.object (.of_skipBlanks hinside hmember) hends⟩

theorem takesWithin (bound : Nat) : TakesWithin bound := by
  induction bound with
  | zero =>
    refine ⟨fun _ h => ?_, fun _ h => ?_, fun _ h => ?_⟩
    · cases h
    · cases h
    · cases h
  | succ bound ih =>
    refine ⟨?_, ?_, ?_⟩
    · intro text left htext h
      rw [skipBounded] at h
      obtain ⟨opening, hopening, h⟩ := Steps.bind_eq_ok_iff.mp h
      rcases opening with rest | ⟨b, inside⟩
      · cases h
        exact skipOpening_taken htext hopening
      · refine begins_of_bracket htext hopening fun hinside => ?_
        simp only at h
        split at h
        · cases h
        next c behind hskip =>
          split at h
          · next hclose =>
            cases h
            exact Bracket.empty hinside (hclose ▸ hskip)
          · exact ih.bracket hinside (hskip ▸ h)
    · intro text left htext h
      rw [skipItems] at h
      obtain ⟨head, hhead, h⟩ := Steps.bind_eq_ok_iff.mp h
      cases hhead
      obtain ⟨rest, hvalue, h⟩ := Steps.bind_eq_ok_iff.mp h
      have hitem := ih.value htext hvalue
      refine ⟨rest, hitem, ?_⟩
      split at h
      · cases h
      next c behind hskip =>
        split at h
        · next hclose =>
          cases h
          exact .closed hitem.1 (by rw [hskip, hclose]; rfl)
        split at h
        · next hcomma =>
          rw [hcomma] at hskip
          obtain ⟨hbehind, -⟩ := exists_blanks_cons hitem.1 hskip (by decide)
          obtain ⟨rest', hsecond, hends⟩ := ih.items hbehind h
          exact .comma hitem.1 hskip hsecond hends
        · cases h
    · intro text left htext h
      rw [skipItems] at h
      obtain ⟨value, hhead, h⟩ := Steps.bind_eq_ok_iff.mp h
      obtain ⟨rest, hvalue, h⟩ := Steps.bind_eq_ok_iff.mp h
      have hmember := skipName_taken htext hhead fun hvalueText => ih.value hvalueText hvalue
      refine ⟨rest, hmember, ?_⟩
      split at h
      · cases h
      next c behind hskip =>
        split at h
        · next hclose =>
          cases h
          exact .closed hmember.1 (by rw [hskip, hclose]; rfl)
        split at h
        · next hcomma =>
          rw [hcomma] at hskip
          obtain ⟨hbehind, -⟩ := exists_blanks_cons hmember.1 hskip (by decide)
          obtain ⟨rest', hsecond, hends⟩ := ih.members hbehind h
          exact .comma hmember.1 hskip hsecond hends
        · cases h

theorem begins_of_skipValue {text left : Bytes} (htext : IsText text)
    (h : skipValue text = .ok left) : Begins text left :=
  (takesWithin _).value htext h

end BootTrust.Json
