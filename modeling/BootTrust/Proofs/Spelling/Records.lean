import BootTrust.Json.Record
import BootTrust.Proofs.Spelling.Members
import Mathlib.Data.List.Nodup
/-
Records that are written as objects, decided from both sides. The members may come in any order and
among others, and what counts is only which values each name has that the record knows: none or one,
and the one has to be accepted.

The reader works through the members with a draft and refuses a member that the draft has already. A
step fills one place of the draft and leaves the others alone, hence what a place has in the end
depends on the values of its own name (`HasPlaces.foldlM_eq_some_iff`). That is why the order does
not matter, and neither do members without a place.
-/

set_option autoImplicit false

namespace BootTrust.Json

/-! ## Places of a draft -/

/-- A place of a draft for the value of one member. -/
structure Place (δ : Type) where
  Kept : Type
  name : String
  optional : Bool
  reader : Reader Kept
  get : δ → Option Kept
  put : δ → Kept → δ
  /-- Which values the reader takes, and as what. -/
  accept? : Spelling → Option Kept
  readsAs : ReadsAs reader accept?
  get_put : ∀ draft b, get (put draft b) = some b

namespace Place

variable {δ α : Type} {places : List (Place δ)}

def slot (p : Place δ) : Slot δ :=
  .of p.name p.optional p.reader p.get p.put

/-- What becomes of a draft by a member: a name without a place adds nothing, and a place is filled
only once. -/
def effect? (places : List (Place δ)) (draft : δ) (name : String) (s : Spelling) : Option δ :=
  match places.find? (·.name = name) with
  | none => some draft
  | some p => if (p.get draft).isSome then none else (p.accept? s).map (p.put draft)

/-- The reader of a record does to its draft what the members do. -/
theorem stepsAs {shape : Shape δ α} (hslots : shape.slots = places.map slot) :
    StepsAs shape.readMember (effect? places) := by
  intro draft name m rest left draft' hends
  have hslot : shape.slot? name = (places.find? (·.name = name)).map slot := by
    rw [Shape.slot?, hslots, List.find?_map]
    rfl
  rw [Shape.readMember, hslot, effect?]
  rcases hfind : places.find? (·.name = name) with _ | p
  -- a member without a place is passed over
  · simp only [hfind, Option.map_none, colon_bytesBehind, bind, Except.bind,
      skipValue_spelled _ _ hends, stopped]
    constructor
    · rintro ⟨⟩
      exact ⟨rfl, rfl⟩
    · rintro ⟨⟨⟩, rfl⟩
      rfl
  · simp only [hfind, Option.map_some]
    have hfilled : p.slot.filled draft = (p.get draft).isSome := rfl
    rw [hfilled]
    rcases hget : (p.get draft).isSome with _ | _
    · simp only [Bool.false_eq_true, if_false]
      rw [stopped_eq_ok_iff, colon_bytesBehind]
      show p.slot.read draft (m.value.before.bytes ++ (m.value.inner.bytes ++ rest))
        = .ok (draft', left) ↔ _
      constructor
      · intro h
        obtain ⟨⟨b, behind⟩, hread, hput⟩ := Steps.bind_eq_ok_iff.mp h
        cases hput
        obtain ⟨haccept, rfl⟩ := (p.readsAs _ _ hends).mp hread
        exact ⟨by rw [haccept, Option.map_some], rfl⟩
      · rintro ⟨hput, rfl⟩
        obtain ⟨b, haccept, rfl⟩ := Option.map_eq_some_iff.mp hput
        exact Steps.bind_eq_ok_iff.mpr ⟨(b, left), (p.readsAs _ _ hends).mpr ⟨haccept, rfl⟩, rfl⟩
    · simp only [if_true]
      constructor
      · rintro ⟨⟩
      · rintro ⟨⟨⟩, -⟩

/-- What the values of a name do to its place: an empty place takes what they come to, and a filled
one takes no other value. -/
def Fills (p : Place δ) (values : List Spelling) (before after : Option p.Kept) : Prop :=
  match before with
  | none => once? p.accept? values = some after
  | some b => values = [] ∧ after = some b

variable {p : Place δ} {before after : Option p.Kept}

theorem fills_nil : p.Fills [] before after ↔ before = after := by
  rcases before with _ | b
  · exact Option.some_inj
  · exact ⟨fun h => h.2.symm, fun h => ⟨rfl, h.symm⟩⟩

theorem fills_cons {s : Spelling} {values : List Spelling} : p.Fills (s :: values) before after
    ↔ before = none ∧ ∃ b, p.accept? s = some b ∧ p.Fills values (some b) after := by
  rcases before with _ | b
  · constructor
    · intro h
      obtain ⟨hvalues, b, haccept, hafter⟩ := once?_cons_eq_some h
      exact ⟨rfl, b, haccept, hvalues, hafter⟩
    · rintro ⟨-, b, haccept, rfl, rfl⟩
      exact congrArg (Option.map some) haccept
  · constructor
    · rintro ⟨h, -⟩
      cases h
    · rintro ⟨h, -⟩
      cases h

end Place

variable {δ α : Type} {shape : Shape δ α} {places : List (Place δ)}

/-- Whether the draft of a record consists of places, one for each member that the record knows. -/
structure Shape.HasPlaces (shape : Shape δ α) (places : List (Place δ)) : Prop where
  slots : shape.slots = places.map Place.slot
  /-- No two places are for the same name. -/
  names : (places.map Place.name).Nodup
  /-- To fill one place leaves the others alone. -/
  apart : ∀ p ∈ places, ∀ q ∈ places, p.name ≠ q.name →
    ∀ draft b, q.get (p.put draft b) = q.get draft
  blank : ∀ p ∈ places, p.get shape.blank = none
  /-- There is nothing else in a draft. -/
  ext : ∀ draft draft', (∀ p ∈ places, p.get draft = p.get draft') → draft = draft'

namespace Shape.HasPlaces

variable {m : Member Spelling} {ms : List (Member Spelling)} {draft final : δ}

/-- A member that is taken makes its place ready for the values of the others. -/
theorem fills_put (h : shape.HasPlaces places) {p₀ : Place δ} (hp₀ : p₀ ∈ places)
    (htext : m.name.inner.text? = some p₀.name) (hempty : p₀.get draft = none) {b : p₀.Kept}
    (haccept : p₀.accept? m.value.inner = some b) {p : Place δ} (hp : p ∈ places)
    {after : Option p.Kept} : p.Fills (Spelling.valuesOf (m :: ms) p.name) (p.get draft) after
      ↔ p.Fills (Spelling.valuesOf ms p.name) (p.get (p₀.put draft b)) after := by
  rw [Spelling.valuesOf_cons, htext]
  by_cases hname : p₀.name = p.name
  · obtain rfl := List.inj_on_of_nodup_map h.names hp₀ hp hname
    rw [if_pos rfl, Place.fills_cons, p₀.get_put, hempty]
    simp [haccept]
  · rw [if_neg (by simpa using hname), h.apart p₀ hp₀ p hp hname]

/-- What a value does to a draft in the place for its name. -/
theorem effect?_eq (h : shape.HasPlaces places) {p : Place δ} (hp : p ∈ places) (s : Spelling) :
    Place.effect? places draft p.name s
      = if (p.get draft).isSome then none else (p.accept? s).map (p.put draft) := by
  have hfind : places.find? (·.name = p.name) = some p := by
    rcases hfind : places.find? (·.name = p.name) with _ | q
    · exact absurd (decide_eq_true rfl) (List.find?_eq_none.mp hfind p hp)
    · have hname : q.name = p.name := by simpa using List.find?_some hfind
      rw [hfind, List.inj_on_of_nodup_map h.names (List.mem_of_find?_eq_some hfind) hp hname]
  simp only [Place.effect?, hfind]

/-- Members fill a draft if each of them has a text as its name and each place is filled by the
values of its name. -/
theorem foldlM_eq_some_iff (h : shape.HasPlaces places) :
    ms.foldlM (Member.change? (Place.effect? places)) draft = some final
      ↔ (∀ m ∈ ms, m.name.inner.text?.isSome = true)
        ∧ ∀ p ∈ places, p.Fills (Spelling.valuesOf ms p.name) (p.get draft) (p.get final) := by
  induction ms generalizing draft with
  | nil =>
    rw [List.foldlM_nil]
    constructor
    · rintro ⟨⟩
      exact ⟨by simp, fun p _ => Place.fills_nil.mpr rfl⟩
    · rintro ⟨-, hplaces⟩
      rw [h.ext draft final fun p hp => Place.fills_nil.mp (hplaces p hp)]
      rfl
  | cons m ms ih =>
    have hcons : (m :: ms).foldlM (Member.change? (Place.effect? places)) draft
        = (Member.change? (Place.effect? places) draft m).bind fun draft' =>
          ms.foldlM (Member.change? (Place.effect? places)) draft' := List.foldlM_cons ..
    rw [hcons, Member.change?, List.forall_mem_cons]
    rcases htext : m.name.inner.text? with _ | name
    · simp
    rw [Option.bind_some, Option.isSome_some, Option.bind_eq_some_iff]
    simp only [ih, true_and]
    rw [Place.effect?]
    rcases hfind : places.find? (·.name = name) with _ | p₀
    -- no place has the name
    · simp only [hfind, Option.some_inj, exists_eq_left']
      refine and_congr_right fun _ => forall₂_congr fun p hp => ?_
      have hname : ¬ name = p.name := by
        intro heq
        exact absurd (decide_eq_true heq.symm) (by simpa using List.find?_eq_none.mp hfind p hp)
      rw [Spelling.valuesOf_cons, htext, if_neg (by simpa using hname)]
    -- one has it, which must be empty
    · simp only [hfind]
      have hp₀ := List.mem_of_find?_eq_some hfind
      obtain rfl : p₀.name = name := by simpa using List.find?_some hfind
      constructor
      · rintro ⟨draft', heffect, hnames, hplaces⟩
        split at heffect
        · cases heffect
        next hfilled =>
        have hempty : p₀.get draft = none := by simpa using hfilled
        obtain ⟨b, haccept, rfl⟩ := Option.map_eq_some_iff.mp heffect
        exact ⟨hnames, fun p hp => (h.fills_put hp₀ htext hempty haccept hp).mpr (hplaces p hp)⟩
      · rintro ⟨hnames, hplaces⟩
        have hfirst := hplaces p₀ hp₀
        rw [Spelling.valuesOf_cons, htext, if_pos rfl, Place.fills_cons] at hfirst
        obtain ⟨hempty, b, haccept, -⟩ := hfirst
        refine ⟨p₀.put draft b, by rw [hempty, haccept]; rfl, hnames, fun p hp => ?_⟩
        exact (h.fills_put hp₀ htext hempty haccept hp).mp (hplaces p hp)

end Shape.HasPlaces

/-! ## Records -/

/-- Only blanks may follow what is read of a whole text. -/
theorem readAll_eq_ok_iff {β : Type} {reader : Reader β} {text : Bytes} {b : β} :
    readAll reader text = .ok b ↔ ∃ rest, reader text = .ok (b, rest) ∧ skipBlanks rest = [] := by
  refine ⟨readAll_eq_ok, ?_⟩
  rintro ⟨rest, hread, hrest⟩
  simp only [readAll, hread, hrest]

theorem Blanks.skipBlanks_bytes (blanks : Blanks) : skipBlanks blanks.bytes = [] := by
  have h := skipBlanks_append blanks.areBlank []
  rwa [List.append_nil] at h

/-- A text that has members begins with a brace. -/
theorem Spelling.exists_body {s : Spelling} {ms : List (Member Spelling)} (h : s.members? = some ms)
    (rest : Bytes) : ∃ body, s.bytes ++ rest = openObject :: body := by
  cases s with
  | emptyObject inside => exact ⟨_, emptyObject_append inside rest⟩
  | object first more => exact ⟨_, object_append first more rest⟩
  | _ => cases h

/-- The draft of an object is what its members make of a blank one. -/
theorem Shape.HasPlaces.readDraft_eq_ok_iff (h : shape.HasPlaces places) {file : Padded Spelling}
    {ms : List (Member Spelling)} (hms : file.inner.members? = some ms) {draft : δ} {left : Bytes} :
    shape.readDraft file.bytes = .ok (draft, left)
      ↔ ms.foldlM (Member.change? (Place.effect? places)) shape.blank = some draft
        ∧ left = file.after.bytes := by
  obtain ⟨body, hbody⟩ := Spelling.exists_body hms file.after.bytes
  rw [← members_eq_ok_iff (Place.stepsAs h.slots) hms hbody, Padded.bytes, Shape.readDraft,
    Spelling.skipBlanks_bytes, hbody]
  simp only [if_true]
  rcases members shape.readMember shape.blank body with stop | ⟨draft', left'⟩
  · simp
  · simp

/-- An object is a record if and only if its members make a draft that is complete. -/
theorem Shape.HasPlaces.parse_eq_ok_iff_foldlM (h : shape.HasPlaces places) {file : Padded Spelling}
    {ms : List (Member Spelling)} (hms : file.inner.members? = some ms) {a : α} :
    shape.parse file.bytes = .ok a
      ↔ ∃ draft, ms.foldlM (Member.change? (Place.effect? places)) shape.blank = some draft
        ∧ shape.finish draft = .ok a := by
  rw [Shape.parse_eq_ok_iff]
  simp only [readAll_eq_ok_iff, h.readDraft_eq_ok_iff hms]
  refine exists_congr fun draft => and_congr_left fun _ => ?_
  constructor
  · rintro ⟨left, ⟨hfold, -⟩, -⟩
    exact hfold
  · intro hfold
    exact ⟨_, ⟨hfold, rfl⟩, file.after.skipBlanks_bytes⟩

/-- An object is a record if and only if each of its members has a text as its name, the values of
each name that the record knows come to something, and with what they come to the record is
complete. -/
theorem Shape.HasPlaces.parse_eq_ok_iff (h : shape.HasPlaces places) {file : Padded Spelling}
    {ms : List (Member Spelling)} (hms : file.inner.members? = some ms) {a : α} :
    shape.parse file.bytes = .ok a
      ↔ (∀ m ∈ ms, m.name.inner.text?.isSome = true)
        ∧ ∃ draft,
          (∀ p ∈ places, once? p.accept? (Spelling.valuesOf ms p.name) = some (p.get draft))
            ∧ shape.finish draft = .ok a := by
  have hplaces : ∀ draft, (∀ p ∈ places,
      p.Fills (Spelling.valuesOf ms p.name) (p.get shape.blank) (p.get draft))
        ↔ ∀ p ∈ places, once? p.accept? (Spelling.valuesOf ms p.name) = some (p.get draft) := by
    intro draft
    refine forall₂_congr fun p hp => ?_
    rw [h.blank p hp]
    rfl
  rw [h.parse_eq_ok_iff_foldlM hms]
  simp only [h.foldlM_eq_some_iff, hplaces]
  constructor
  · rintro ⟨draft, ⟨hnames, honce⟩, hfinish⟩
    exact ⟨hnames, draft, honce, hfinish⟩
  · rintro ⟨hnames, draft, honce, hfinish⟩
    exact ⟨draft, ⟨hnames, honce⟩, hfinish⟩

end BootTrust.Json
