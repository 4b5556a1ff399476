import BootTrust.Json.Record
import BootTrust.Proofs.Json.Documents
/-
Records are read back as they were written. A record is read into a draft, and each member may be
read once only, so whether a member is taken depends on what the draft has already. Printed in
their order, the members of a record meet a draft that does not have them yet, and each is taken
in turn (`TakesAll.slot`).

In the other direction, what every member keeps while it is read is kept by the whole record,
however it is written: its members may come in any order, among others that are passed over, or as
an array (`Shape.parse_keeps`).
-/

set_option autoImplicit false

namespace BootTrust.Json

variable {δ α β : Type} {shape : Shape δ α}

/-! ## Printed records -/

/-- A member that the draft does not have yet is taken, and the others come after it. -/
theorem TakesAll.slot {name : String} {optional : Bool} {reader : Reader β} {get : δ → Option β}
    {put : δ → β → δ} {sp : Spacing} {depth : Nat} {d : Document} {b : β} {draft final : δ}
    {ms : List (String × Document)}
    (hslot : shape.slot? name = some (.of name optional reader get put)) (hnew : get draft = none)
    (hread : ∀ rest, EndsValue rest →
      reader (sp.afterColon ++ d.print sp (depth + 1) ++ rest) = .ok (b, rest))
    (hrest : TakesAll shape.readMember sp depth (put draft b) ms final) :
    TakesAll shape.readMember sp depth draft ((name, d) :: ms) final := by
  refine .cons (fun rest hends => ?_) hrest
  have hfilled : (Slot.of name optional reader get put).filled draft = false := by
    simp only [Slot.of, hnew]
    rfl
  simp only [Shape.readMember, hslot, hfilled, afterName, List.cons_append, colon_colonByte]
  simp only [Slot.of, stopped, bind, Except.bind, hread rest hends]
  rfl

/-- A printed record is the one that its draft amounts to. -/
theorem Shape.parse_print {sp : Spacing} {ms : List (String × Document)} (draft : δ) {a : α}
    (htakes : TakesAll shape.readMember sp 0 shape.blank ms draft)
    (hfinish : shape.finish draft = .ok a) :
    shape.parse ((Document.object ms).print sp 0) = .ok a := by
  obtain ⟨body, hbody, hmembers⟩ := members_print htakes []
  rw [List.append_nil] at hbody
  refine (shape.parse_eq_ok_iff).mpr ⟨draft, ?_, hfinish⟩
  rw [hbody, readAll, readDraft, skipBlanks_cons (by decide)]
  simp only [if_true, hmembers]
  rfl

/-- What the reader of lists of texts does with an item. -/
def textItem (texts : List String) (rest : Bytes) : Except Fault (List String × Bytes) := do
  let (s, rest) ← text rest
  return (s :: texts, rest)

/-- Texts with one more, if the document is one. -/
def pushText (texts : List String) : Document → List String
  | .string s => s :: texts
  | _ => texts

theorem textList_array {blanks : Bytes} (hblanks : ∀ b ∈ blanks, isBlankByte b = true)
    (body : Bytes) :
    textList (blanks ++ openArray :: body) = (do
      let (texts, rest) ← items textItem [] body
      return (texts.reverse, rest)) := by
  rw [textList, skipBlanks_append hblanks, skipBlanks_cons (by decide)]
  rfl

/-- A list of texts is read back from what is printed for it. -/
theorem textList_print (sp : Spacing) (depth : Nat) (texts : List String) {blanks : Bytes}
    (hblanks : ∀ b ∈ blanks, isBlankByte b = true) (rest : Bytes) :
    textList (blanks ++ (Document.array (texts.map .string)).print sp depth ++ rest)
      = .ok (texts, rest) := by
  have htakes : ∀ d ∈ texts.map Document.string, TakesItem textItem pushText sp depth d := by
    intro d hd
    obtain ⟨s, -, rfl⟩ := List.mem_map.mp hd
    refine ⟨exists_first_byte rfl sp (depth + 1), fun state rest _ => ?_⟩
    have hread : text (stringBytes s ++ rest) = .ok (s, rest) := by
      have hprint := text_print .none 0 s rest
      rwa [Document.print] at hprint
    rw [textItem, Document.print, hread]
    rfl
  obtain ⟨body, hbody, hitems⟩ := items_print htakes [] rest
  rw [List.foldl_map] at hitems
  rw [List.append_assoc, hbody, textList_array hblanks, hitems]
  exact congrArg (fun texts => Except.ok (texts, rest)) (foldl_cons_reverse texts)

/-! ## What a record keeps -/

/-- A member that is read keeps what putting it into a draft keeps. -/
theorem Slot.of_keeps {holds : δ → Prop} {name : String} {optional : Bool} {reader : Reader β}
    {get : δ → Option β} {put : δ → β → δ} {draft draft' : δ} {text rest : Bytes}
    (hdraft : holds draft)
    (h : (Slot.of name optional reader get put).read draft text = .ok (draft', rest))
    (hput : ∀ b left, holds draft → reader text = .ok (b, left) → holds (put draft b)) :
    holds draft' := by
  obtain ⟨⟨b, left⟩, hread, h⟩ := Steps.bind_eq_ok_iff.mp h
  cases h
  exact hput b _ hdraft hread

theorem Shape.readItems_keeps (holds : δ → Prop) {slots : List (Slot δ)}
    (hslot : ∀ slot ∈ slots, ∀ draft text draft' rest, holds draft →
      slot.read draft text = .ok (draft', rest) → holds draft')
    {index : Nat} {draft draft' : δ} {text rest : Bytes} (hdraft : holds draft)
    (h : shape.readItems index slots draft text = .ok (draft', rest)) : holds draft' := by
  induction slots generalizing index draft text with
  | nil =>
    cases h
    exact hdraft
  | cons slot slots ih =>
    have hmore := @ih fun s hs => hslot s (List.mem_cons_of_mem slot hs)
    rw [readItems] at h
    split at h
    · cases h
    · split at h
      -- the array ends early
      · split at h
        · exact hmore hdraft h
        · cases h
      · have hitem : ∀ text, (stopped (slot.read draft text) >>= fun read =>
            shape.readItems (index + 1) slots read.1 read.2) = .ok (draft', rest) →
          holds draft' := by
          intro text h
          obtain ⟨⟨draft₁, rest₁⟩, hread, h⟩ := Steps.bind_eq_ok_iff.mp h
          exact hmore (hslot slot List.mem_cons_self _ _ _ _ hdraft (stopped_eq_ok_iff.mp hread)) h
        -- the first item stands alone, the others come behind a comma
        simp only at h
        split at h
        · exact hitem _ h
        · split at h
          · obtain ⟨_, -, h⟩ := Steps.bind_eq_ok_iff.mp h
            exact hitem _ h
          · cases h

theorem Shape.readMember_keeps {holds : δ → Prop}
    (hslot : ∀ slot ∈ shape.slots, ∀ draft text draft' rest, holds draft →
      slot.read draft text = .ok (draft', rest) → holds draft')
    {draft draft' : δ} {name : String} {text rest : Bytes} (hdraft : holds draft)
    (h : shape.readMember draft name text = .ok (draft', rest)) : holds draft' := by
  unfold readMember at h
  split at h
  -- a member that nobody asked for
  · obtain ⟨_, -, h⟩ := Steps.bind_eq_ok_iff.mp (stopped_eq_ok_iff.mp h)
    obtain ⟨_, -, h⟩ := Steps.bind_eq_ok_iff.mp h
    cases h
    exact hdraft
  · next slot hfound =>
    split at h
    · cases h
    · obtain ⟨_, -, h⟩ := Steps.bind_eq_ok_iff.mp (stopped_eq_ok_iff.mp h)
      exact hslot slot (List.mem_of_find?_eq_some hfound) _ _ _ _ hdraft h

/-- What every member keeps while it is read, the record keeps. -/
theorem Shape.readDraft_keeps {holds : δ → Prop}
    (hslot : ∀ slot ∈ shape.slots, ∀ draft text draft' rest, holds draft →
      slot.read draft text = .ok (draft', rest) → holds draft')
    (hblank : holds shape.blank) {draft : δ} {text rest : Bytes}
    (h : shape.readDraft text = .ok (draft, rest)) : holds draft := by
  unfold readDraft at h
  split at h
  · cases h
  split at h
  · split at h
    · cases h
    · next draft' rest' hmembers =>
      cases h
      exact members_keeps holds (fun _ _ _ _ _ => readMember_keeps hslot) hblank hmembers
  split at h
  · split at h
    · cases h
    · next draft' rest' hitems =>
      obtain ⟨_, -, h⟩ := Steps.bind_eq_ok_iff.mp h
      cases h
      exact readItems_keeps holds hslot hblank hitems
  · cases h

/-- Only blanks follow what is read of a whole text. -/
theorem readAll_eq_ok {reader : Reader β} {text : Bytes} {b : β} (h : readAll reader text = .ok b) :
    ∃ rest, reader text = .ok (b, rest) ∧ skipBlanks rest = [] := by
  unfold readAll at h
  split at h
  · cases h
  · next b' rest hread =>
    split at h
    · next hrest =>
      cases h
      exact ⟨rest, hread, hrest⟩
    · cases h

/-- A record is made of a draft that has what every member keeps. -/
theorem Shape.parse_keeps {holds : δ → Prop}
    (hslot : ∀ slot ∈ shape.slots, ∀ draft text draft' rest, holds draft →
      slot.read draft text = .ok (draft', rest) → holds draft')
    (hblank : holds shape.blank) {body : Bytes} {a : α} (h : shape.parse body = .ok a) :
    ∃ draft, holds draft ∧ shape.finish draft = .ok a := by
  obtain ⟨draft, hdraft, hfinish⟩ := (shape.parse_eq_ok_iff).mp h
  obtain ⟨rest, hread, -⟩ := readAll_eq_ok hdraft
  exact ⟨draft, readDraft_keeps hslot hblank hread, hfinish⟩

end BootTrust.Json
