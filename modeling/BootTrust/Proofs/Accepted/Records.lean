import BootTrust.Proofs.Accepted.Documents
import BootTrust.Proofs.Json.Records
/-
A record that is read is written as the grammar says (`Shape.exists_padded`), whatever its members
are, as long as each of them takes a value. A record may be an object or an array. In an array it
is left to the end whether there are enough items, so its items are followed up to the closing
bracket, which is taken last.
-/

set_option autoImplicit false

namespace BootTrust.Json

open Utf8 (IsText)

section Values

variable {depth : Nat} {text left : Bytes}

theorem begins_of_value {v : Value} (htext : IsText text) (h : value depth text = .ok (v, left)) :
    Begins text left := by
  obtain ⟨⟨d, left'⟩, hread, h⟩ := Steps.bind_eq_ok_iff.mp h
  cases h
  exact begins_of_document htext hread

theorem begins_of_text {s : String} (htext : IsText text) (h : Json.text text = .ok (s, left)) :
    Begins text left := by
  rw [Json.text, stringAs] at h
  split at h
  · cases h
  next b rest hskip =>
    split at h
    · next hquote =>
      rw [hquote] at hskip
      obtain ⟨hrest, -⟩ := exists_blanks_cons htext hskip (by decide)
      obtain ⟨hleft, q, rfl⟩ := skipString_taken hrest (skipString_of_string h)
      refine .of_skipBlanks htext ⟨hleft, .none, .string q, ?_⟩
      exact hskip.trans (Spelling.string_append q left).symm
    · cases h

end Values

variable {δ α β : Type} {shape : Shape δ α}

/-- A member takes a value, whatever has been read before. -/
def Slot.TakesValue (slot : Slot δ) : Prop :=
  ∀ {draft text draft' left}, IsText text → slot.read draft text = .ok (draft', left) →
    Begins text left

theorem Slot.takesValue_of {name : String} {optional : Bool} {reader : Reader β}
    {get : δ → Option β} {put : δ → β → δ}
    (h : ∀ {text b left}, IsText text → reader text = .ok (b, left) → Begins text left) :
    (Slot.of name optional reader get put).TakesValue := by
  intro draft text draft' left htext hread
  obtain ⟨⟨b, left'⟩, hread, hdraft⟩ := Steps.bind_eq_ok_iff.mp hread
  cases hdraft
  exact h htext hread

namespace Shape

theorem readMember_taken (hslots : ∀ slot ∈ shape.slots, slot.TakesValue) :
    TakesMember shape.readMember := by
  intro draft name text draft' left htext h
  unfold readMember at h
  split at h
  · obtain ⟨behind, hcolon, h⟩ := Steps.bind_eq_ok_iff.mp (stopped_eq_ok_iff.mp h)
    obtain ⟨rest, hskip, h⟩ := Steps.bind_eq_ok_iff.mp h
    cases h
    exact ⟨behind, hcolon, begins_of_skipValue (colon_taken htext hcolon).1 hskip⟩
  · next slot hfound =>
    split at h
    · cases h
    · obtain ⟨behind, hcolon, h⟩ := Steps.bind_eq_ok_iff.mp (stopped_eq_ok_iff.mp h)
      exact ⟨behind, hcolon,
        hslots slot (List.mem_of_find?_eq_some hfound) (colon_taken htext hcolon).1 h⟩

theorem closeItems_eq_ok {text left : Bytes} (h : closeItems text = .ok left) :
    skipBlanks text = closeArray :: left := by
  rw [closeItems] at h
  split at h
  · cases h
  · next b rest hskip =>
    split at h
    · next hclose =>
      cases h
      rw [hskip, hclose]
    -- whatever else follows is refused
    split at h
    · split at h
      · cases h
      · split at h
        · cases h
        · cases h
    · cases h

/-- The closing bracket is left to the end. -/
theorem readItems_closed {slots : List (Slot δ)} {index : Nat} {draft draft' : δ}
    {text more rest : Bytes} (hskip : skipBlanks text = closeArray :: more)
    (h : shape.readItems index slots draft text = .ok (draft', rest)) :
    skipBlanks rest = closeArray :: more := by
  induction slots generalizing index text with
  | nil =>
    cases h
    exact hskip
  | cons slot slots ih =>
    have hblank : isBlankByte closeArray = false := by decide
    rw [readItems] at h
    simp only [hskip, if_true] at h
    split at h
    · exact ih (skipBlanks_cons hblank more) h
    · cases h

/-- What follows an item of a record that is written as an array. -/
theorem readItems_taken {slots : List (Slot δ)} (hslots : ∀ slot ∈ slots, slot.TakesValue)
    {index : Nat} (hindex : index ≠ 0) {draft draft' : δ} {text rest left : Bytes}
    (htext : IsText text) (h : shape.readItems index slots draft text = .ok (draft', rest))
    (hclose : closeItems rest = .ok left) : EndsArray text left := by
  have hlast := closeItems_eq_ok hclose
  induction slots generalizing index draft text with
  | nil =>
    cases h
    exact .closed htext hlast
  | cons slot slots ih =>
    rcases hskip : skipBlanks text with _ | ⟨b, behind⟩
    · rw [readItems] at h
      simp only [hskip] at h
      cases h
    by_cases hb : b = closeArray
    · rw [hb] at hskip
      have hsame := (readItems_closed hskip h).symm.trans hlast
      rw [(List.cons.inj hsame).2] at hskip
      exact .closed htext hskip
    · rw [readItems] at h
      simp only [hskip, if_neg hb, if_neg hindex] at h
      split at h
      · next hcomma =>
        rw [hcomma] at hskip
        obtain ⟨hbehind, -⟩ := exists_blanks_cons htext hskip (by decide)
        obtain ⟨next, hnext, h⟩ := Steps.bind_eq_ok_iff.mp h
        rw [nextItem_eq_ok (stopped_eq_ok_iff.mp hnext)] at h
        obtain ⟨-, -, hmore⟩ := exists_blanks hbehind
        obtain ⟨⟨draft₁, rest₁⟩, hread, h⟩ := Steps.bind_eq_ok_iff.mp h
        have hitem := hslots slot List.mem_cons_self hmore (stopped_eq_ok_iff.mp hread)
        have hends := ih (fun s hs => hslots s (List.mem_cons_of_mem slot hs))
          (Nat.succ_ne_zero index) hitem.1 h
        exact .comma htext hskip (.of_skipBlanks hbehind hitem) hends
      · cases h

/-- A record that is written as an array is one. -/
theorem array_taken {slots : List (Slot δ)} (hslots : ∀ slot ∈ slots, slot.TakesValue)
    {draft draft' : δ} {text rest left : Bytes} (htext : IsText text)
    (h : shape.readItems 0 slots draft text = .ok (draft', rest))
    (hclose : closeItems rest = .ok left) :
    IsText left ∧ ∃ s : Spelling, openArray :: text = s.bytes ++ left := by
  have hlast := closeItems_eq_ok hclose
  rcases slots with _ | ⟨slot, slots⟩
  · cases h
    exact Bracket.empty (b := .array) htext hlast
  rcases hskip : skipBlanks text with _ | ⟨b, behind⟩
  · rw [readItems] at h
    simp only [hskip] at h
    cases h
  by_cases hb : b = closeArray
  · rw [hb] at hskip
    have hsame := (readItems_closed hskip h).symm.trans hlast
    rw [(List.cons.inj hsame).2] at hskip
    exact Bracket.empty (b := .array) htext hskip
  · rw [readItems] at h
    simp only [hskip, if_neg hb, if_true] at h
    obtain ⟨-, -, hinside⟩ := exists_blanks htext
    obtain ⟨first, hfirst, h⟩ := Steps.bind_eq_ok_iff.mp h
    cases hfirst
    rw [← hskip] at h
    obtain ⟨⟨draft₁, rest₁⟩, hread, h⟩ := Steps.bind_eq_ok_iff.mp h
    have hitem := hslots slot List.mem_cons_self hinside (stopped_eq_ok_iff.mp hread)
    have hends := readItems_taken (fun s hs => hslots s (List.mem_cons_of_mem slot hs))
      (Nat.succ_ne_zero 0) hitem.1 h hclose
    exact ⟨hends.1, Begins.array (.of_skipBlanks htext hitem) hends⟩

theorem readDraft_taken (hslots : ∀ slot ∈ shape.slots, slot.TakesValue) {draft : δ}
    {text left : Bytes} (htext : IsText text) (h : shape.readDraft text = .ok (draft, left)) :
    Begins text left := by
  have hvalue : ∀ {b : UInt8} {inside : Bytes}, skipBlanks text = b :: inside →
      (IsText left ∧ ∃ s : Spelling, b :: inside = s.bytes ++ left) → Begins text left := by
    rintro b inside hskip ⟨hleft, s, hs⟩
    exact .of_skipBlanks htext ⟨hleft, .none, s, hskip.trans hs⟩
  rw [readDraft] at h
  split at h
  · cases h
  next b inside hskip =>
    split at h
    · next hobject =>
      rw [hobject] at hskip
      obtain ⟨hinside, -⟩ := exists_blanks_cons htext hskip (by decide)
      split at h
      · cases h
      · next draft' left' hmembers =>
        cases h
        exact hvalue hskip (members_taken (readMember_taken hslots) hinside hmembers)
    split at h
    · next harray =>
      rw [harray] at hskip
      obtain ⟨hinside, -⟩ := exists_blanks_cons htext hskip (by decide)
      split at h
      · cases h
      · next draft' rest hitems =>
        obtain ⟨left', hclose, h⟩ := Steps.bind_eq_ok_iff.mp h
        cases h
        exact hvalue hskip (array_taken hslots hinside hitems hclose)
    · cases h

/-- A text that is a record is written as the grammar says. -/
theorem exists_padded (hslots : ∀ slot ∈ shape.slots, slot.TakesValue) {text : Bytes} {a : α}
    (htext : IsText text) (h : shape.parse text = .ok a) :
    ∃ file : Padded Spelling, file.bytes = text := by
  obtain ⟨draft, hdraft, -⟩ := (shape.parse_eq_ok_iff).mp h
  obtain ⟨rest, hread, hend⟩ := readAll_eq_ok hdraft
  obtain ⟨hrest, before, s, rfl⟩ := readDraft_taken hslots htext hread
  obtain ⟨after, hafter, -⟩ := exists_blanks hrest
  rw [hend, List.append_nil] at hafter
  exact ⟨⟨before, s, after⟩, by rw [Padded.bytes, hafter]⟩

end Shape

end BootTrust.Json
