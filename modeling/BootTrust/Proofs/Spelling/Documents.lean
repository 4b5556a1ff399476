import BootTrust.Proofs.Json.Documents
import BootTrust.Proofs.Spelling.Reals
import BootTrust.Proofs.Spelling.Strings
import Mathlib.Data.List.Forall2
/-
What a document in memory denotes, and the two things that are done with it. Its normal form denotes
the same (`meaning_normal`): sorting members changes no look-up, as long as the last of several with
one name counts on both sides. And what is printed for it is a text that denotes the same
(`exists_spelling`), if its numbers are kept exactly.

A number that is not kept exactly is printed all the same, only as a number near it. So every
document is printed as a text, member by member (`exists_members`), and the condition on its numbers
is needed for what they denote and for nothing else (`IsWrittenAs`).
-/

set_option autoImplicit false

namespace BootTrust

variable {α β : Type}

/-! ## Look-ups -/

theorem lookup_map (f : α → β) (entries : List (String × α)) (k : String) :
    (entries.map fun e => (e.1, f e.2)).lookup k = (entries.lookup k).map f := by
  induction entries with
  | nil => rfl
  | cons e entries ih =>
    rw [List.map_cons, List.lookup_cons, List.lookup_cons, ih]
    rcases k == e.1 with _ | _
    · rfl
    · rfl

/-- In a sorted list a key is where the last entry with this key was. -/
theorem lookup_sortEntries (entries : List (String × α)) (k : String) :
    (sortEntries entries).lookup k = entries.reverse.lookup k := by
  have hfold : ∀ acc : List (String × α),
      (entries.foldl (fun acc e => insertEntry e.1 e.2 acc) acc).lookup k
        = (entries.reverse.lookup k).or (acc.lookup k) := by
    induction entries with
    | nil => exact fun acc => rfl
    | cons e entries ih =>
      intro acc
      rw [List.foldl_cons, ih, lookup_insertEntry, List.reverse_cons, List.lookup_append,
        Option.or_assoc, List.lookup_cons, List.lookup_nil]
      by_cases hk : k = e.1
      · rw [if_pos hk, beq_iff_eq.mpr hk]
        rfl
      · rw [if_neg hk, beq_false_of_ne hk]
        rfl
  exact (hfold []).trans (by rw [List.lookup_nil, Option.or_none])

/-- So sorting keeps the last entry of each key where it can be found from either end. -/
theorem lookup_reverse_sortEntries (entries : List (String × α)) (k : String) :
    (sortEntries entries).reverse.lookup k = entries.reverse.lookup k := by
  rw [← lookup_sortEntries, (ascending_sortEntries entries).sortEntries, lookup_sortEntries]

namespace Json

/-- An object as it is meant does not depend on the order in which different names are sorted. -/
theorem Spelling.family_sortEntries (ms : List (String × Document)) (f : Document → Meaning) :
    family ((sortEntries ms).map fun m => (m.1, f m.2))
      = family (ms.map fun m => (m.1, f m.2)) := by
  funext k
  rw [family, family, ← List.map_reverse, ← List.map_reverse, lookup_map, lookup_map,
    lookup_reverse_sortEntries]

namespace Document

/-! ## What a document denotes -/

mutual

/-- What a document denotes. -/
def meaning : Document → Meaning
  | .null => .null
  | .bool b => .bool b
  | .number n => .number n.value
  | .string s => .string s
  | .array items => .array (itemMeanings items)
  | .object members => .object (Spelling.family (memberMeanings members))

def itemMeanings : List Document → List Meaning
  | [] => []
  | d :: ds => d.meaning :: itemMeanings ds

def memberMeanings : List (String × Document) → List (String × Meaning)
  | [] => []
  | (name, d) :: ms => (name, d.meaning) :: memberMeanings ms

end

theorem itemMeanings_eq_map (ds : List Document) : itemMeanings ds = ds.map meaning := by
  induction ds with
  | nil => rfl
  | cons d ds ih => rw [itemMeanings, ih, List.map_cons]

theorem memberMeanings_eq_map (ms : List (String × Document)) :
    memberMeanings ms = ms.map fun m => (m.1, m.2.meaning) := by
  induction ms with
  | nil => rfl
  | cons m ms ih => rw [memberMeanings, ih, List.map_cons]

mutual

/-- Whether all numbers in a document are of some kind. -/
def everyNumber (p : Number → Bool) : Document → Bool
  | .number n => p n
  | .array items => everyItem p items
  | .object members => everyMember p members
  | _ => true

def everyItem (p : Number → Bool) : List Document → Bool
  | [] => true
  | d :: ds => d.everyNumber p && everyItem p ds

def everyMember (p : Number → Bool) : List (String × Document) → Bool
  | [] => true
  | (_, d) :: ms => d.everyNumber p && everyMember p ms

end

variable {p : Number → Bool}

theorem everyItem_iff {ds : List Document} :
    everyItem p ds = true ↔ ∀ d ∈ ds, d.everyNumber p = true := by
  induction ds with
  | nil => simp [everyItem]
  | cons d ds ih => simp [everyItem, ih]

theorem everyMember_iff {ms : List (String × Document)} :
    everyMember p ms = true ↔ ∀ m ∈ ms, m.2.everyNumber p = true := by
  induction ms with
  | nil => simp [everyMember]
  | cons m ms ih => simp [everyMember, ih]

/-! ## Normal form -/

mutual

/-- The normal form denotes the same. -/
theorem meaning_normal : (d : Document) → d.normal.meaning = d.meaning
  | .null | .bool _ | .number _ | .string _ => rfl
  | .array items => by
    rw [normal, meaning, meaning, itemMeanings_normalItems items]
  | .object members => by
    rw [normal, meaning, meaning, memberMeanings_eq_map, Spelling.family_sortEntries,
      ← memberMeanings_eq_map, memberMeanings_normalMembers members]

theorem itemMeanings_normalItems :
    (ds : List Document) → itemMeanings (normalItems ds) = itemMeanings ds
  | [] => rfl
  | d :: ds => by
    rw [normalItems, itemMeanings, itemMeanings, meaning_normal d, itemMeanings_normalItems ds]

theorem memberMeanings_normalMembers :
    (ms : List (String × Document)) → memberMeanings (normalMembers ms) = memberMeanings ms
  | [] => rfl
  | (name, d) :: ms => by
    rw [normalMembers, memberMeanings, memberMeanings, meaning_normal d,
      memberMeanings_normalMembers ms]

end

mutual

/-- The normal form has no other numbers. -/
theorem everyNumber_normal : (d : Document) → d.everyNumber p = true → d.normal.everyNumber p = true
  | .null, h | .bool _, h | .number _, h | .string _, h => h
  | .array items, h => everyItem_normalItems items h
  | .object members, h => by
    have hall := everyMember_iff.mp (everyMember_normalMembers members h)
    exact everyMember_iff.mpr fun m hm => hall m (mem_of_mem_sortEntries hm)

theorem everyItem_normalItems :
    (ds : List Document) → everyItem p ds = true → everyItem p (normalItems ds) = true
  | [], _ => rfl
  | d :: ds, h => by
    obtain ⟨hfirst, hmore⟩ := Bool.and_eq_true_iff.mp h
    exact Bool.and_eq_true_iff.mpr ⟨everyNumber_normal d hfirst, everyItem_normalItems ds hmore⟩

theorem everyMember_normalMembers :
    (ms : List (String × Document)) → everyMember p ms = true →
    everyMember p (normalMembers ms) = true
  | [], _ => rfl
  | (name, d) :: ms, h => by
    obtain ⟨hfirst, hmore⟩ := Bool.and_eq_true_iff.mp h
    exact Bool.and_eq_true_iff.mpr ⟨everyNumber_normal d hfirst, everyMember_normalMembers ms hmore⟩

end

end Document

/-! ## Printed documents -/

/-- No blanks at all. -/
def Blanks.none : Blanks :=
  ⟨[], Spacing.none.afterColon_blank⟩

/-- The blanks before an item, a member or a closing bracket. -/
def Spacing.lineBlanks (sp : Spacing) (depth : Nat) : Blanks :=
  ⟨sp.lineBreak depth, sp.lineBreak_blank depth⟩

/-- The blanks behind a colon. -/
def Spacing.colonBlanks (sp : Spacing) : Blanks :=
  ⟨sp.afterColon, sp.afterColon_blank⟩

namespace Document

/-- A name as it is printed, with the blanks before it. -/
def printedName (sp : Spacing) (depth : Nat) (name : String) : Padded Quoted :=
  ⟨sp.lineBlanks depth, .ofText name, .none⟩

theorem nameBytes_printedName (sp : Spacing) (depth : Nat) (name : String) :
    (printedName sp depth name).nameBytes
      = sp.lineBreak depth ++ (stringBytes name ++ [colonByte]) := by
  rw [Padded.nameBytes, printedName, Quoted.bytes_ofText]
  rfl

/-- The text that a document is, if it is a string. -/
def text? : Document → Option String
  | .string s => some s
  | _ => none

theorem text?_eq_some_iff {d : Document} {s : String} : d.text? = some s ↔ d = .string s := by
  cases d <;> simp [text?]

/-- The integer that a document is kept as. -/
def integer? : Document → Option Int
  | .number n => n.integer?
  | _ => none

/-- Whether a text is what a document stands for: the same if its numbers are kept exactly, and in
any case the same to readers who look for one piece. -/
structure IsWrittenAs (d : Document) (s : Spelling) : Prop where
  meaning : d.everyNumber Number.isKeptExactly = true → s.meaning? = some d.meaning
  text : s.text? = d.text?
  integer : s.integer? = d.integer?
  null : s = .null ↔ d = .null
  bool : ∀ b, s = .bool b ↔ d = .bool b

/-- Whether a member is printed as a member of a text. -/
structure IsPrintedAs (sp : Spacing) (depth : Nat) (m : String × Document)
    (written : Member Spelling) : Prop where
  name : written.name.inner.text? = some m.1
  bytes : written.value.inner.bytes = m.2.print sp depth
  isWrittenAs : m.2.IsWrittenAs written.value.inner

/-- A bracket is no piece, whatever stands in it. -/
theorem isWrittenAs_bracket {d : Document} {s : Spelling}
    (hd : (∃ ds, d = .array ds) ∨ ∃ ms, d = .object ms)
    (hs : s.text? = none ∧ s.integer? = none ∧ s ≠ .null ∧ ∀ b, s ≠ .bool b)
    (hmeaning : d.everyNumber Number.isKeptExactly = true → s.meaning? = some d.meaning) :
    d.IsWrittenAs s := by
  obtain ⟨htext, hinteger, hnull, hbool⟩ := hs
  rcases hd with ⟨ds, rfl⟩ | ⟨ms, rfl⟩
  · exact ⟨hmeaning, htext, hinteger, by simp [hnull], by simp [hbool]⟩
  · exact ⟨hmeaning, htext, hinteger, by simp [hnull], by simp [hbool]⟩

mutual

/-- What is printed for a document is a text that the document is written as. -/
theorem exists_spelled (sp : Spacing) (depth : Nat) : (d : Document) →
    ∃ s : Spelling, s.bytes = d.print sp depth ∧ d.IsWrittenAs s
  | .null => ⟨.null, rfl, fun _ => rfl, rfl, rfl, by simp, by simp⟩
  | .bool true => ⟨.bool true, rfl, fun _ => rfl, rfl, rfl, by simp, by simp⟩
  | .bool false => ⟨.bool false, rfl, fun _ => rfl, rfl, rfl, by simp, by simp⟩
  | .number n => by
    obtain ⟨l, hbytes, hvalue, hinteger⟩ := n.exists_spelled
    refine ⟨.number l, hbytes, fun hexact => ?_, rfl, hinteger, by simp, by simp⟩
    rw [Spelling.meaning?, hvalue hexact, meaning]
  | .string s => by
    refine ⟨.string (.ofText s), Quoted.bytes_ofText s, fun _ => ?_, Quoted.text?_ofText s, rfl,
      by simp, by simp⟩
    rw [Spelling.meaning?, Quoted.text?_ofText, meaning]
    rfl
  | .array [] => by
    refine ⟨.emptyArray .none, rfl,
      isWrittenAs_bracket (Or.inl ⟨_, rfl⟩) ⟨rfl, rfl, by simp, by simp⟩ fun _ => rfl⟩
  | .array (d :: ds) => by
    obtain ⟨s, hbytes, hwritten⟩ := exists_spelled sp (depth + 1) d
    obtain ⟨after, more, hmoreBytes, hmeanings⟩ := exists_moreItems sp depth ds
    refine ⟨.array ⟨sp.lineBlanks (depth + 1), s, after⟩ more, ?_,
      isWrittenAs_bracket (Or.inl ⟨_, rfl⟩) ⟨rfl, rfl, by simp, by simp⟩ fun hexact => ?_⟩
    · rw [Spelling.bytes, hmoreBytes, hbytes, print, List.append_assoc]
      rfl
    · obtain ⟨hfirst, hmore⟩ := Bool.and_eq_true_iff.mp hexact
      rw [Spelling.meaning?, hwritten.meaning hfirst, hmeanings hmore]
      rfl
  | .object ms => by
    obtain ⟨s, members, hbytes, hmembers, -, hmeaning⟩ := exists_members sp depth ms
    refine ⟨s, hbytes, isWrittenAs_bracket (Or.inr ⟨_, rfl⟩) ?_ hmeaning⟩
    cases s with
    | emptyObject inside => exact ⟨rfl, rfl, by simp, by simp⟩
    | object first more => exact ⟨rfl, rfl, by simp, by simp⟩
    | _ => cases hmembers

theorem exists_moreItems (sp : Spacing) (depth : Nat) : (ds : List Document) →
    ∃ (after : Blanks) (more : List (Padded Spelling)),
      after.bytes ++ Spelling.moreItems more = moreItems sp depth ds
        ∧ (everyItem Number.isKeptExactly ds = true →
          Spelling.meanings? more = some (itemMeanings ds))
  | [] => ⟨sp.lineBlanks depth, [], rfl, fun _ => rfl⟩
  | d :: ds => by
    obtain ⟨s, hbytes, hwritten⟩ := exists_spelled sp (depth + 1) d
    obtain ⟨after, more, hmoreBytes, hmeanings⟩ := exists_moreItems sp depth ds
    refine ⟨.none, ⟨sp.lineBlanks (depth + 1), s, after⟩ :: more, ?_, fun hexact => ?_⟩
    · rw [Spelling.moreItems, hmoreBytes, hbytes, moreItems, List.append_assoc]
      rfl
    · obtain ⟨hfirst, hmore⟩ := Bool.and_eq_true_iff.mp hexact
      rw [Spelling.meanings?, hwritten.meaning hfirst, hmeanings hmore]
      rfl

/-- An object is printed member by member. -/
theorem exists_members (sp : Spacing) (depth : Nat) : (ms : List (String × Document)) →
    ∃ (s : Spelling) (members : List (Member Spelling)),
      s.bytes = (Document.object ms).print sp depth
        ∧ s.members? = some members ∧ List.Forall₂ (IsPrintedAs sp (depth + 1)) ms members
        ∧ (everyMember Number.isKeptExactly ms = true →
          s.meaning? = some (Document.object ms).meaning)
  | [] => ⟨.emptyObject .none, [], rfl, rfl, .nil, fun _ => rfl⟩
  | (name, d) :: ms => by
    obtain ⟨s, hbytes, hwritten⟩ := exists_spelled sp (depth + 1) d
    obtain ⟨after, more, hmoreBytes, hprinted, hnamed⟩ := exists_moreMembers sp depth ms
    refine ⟨.object ⟨printedName sp (depth + 1) name, sp.colonBlanks, s, after⟩ more, _, ?_, rfl,
      .cons ⟨Quoted.text?_ofText name, hbytes, hwritten⟩ hprinted, fun hexact => ?_⟩
    · rw [Spelling.bytes, hmoreBytes, hbytes, nameBytes_printedName, print]
      simp only [Spacing.colonBlanks, List.append_assoc, List.cons_append, List.nil_append]
    · obtain ⟨hfirst, hmore⟩ := Bool.and_eq_true_iff.mp hexact
      rw [printedName, Spelling.meaning?, Quoted.text?_ofText, hwritten.meaning hfirst,
        hnamed hmore]
      rfl

theorem exists_moreMembers (sp : Spacing) (depth : Nat) : (ms : List (String × Document)) →
    ∃ (after : Blanks) (more : List (Member Spelling)),
      after.bytes ++ Spelling.moreMembers more = moreMembers sp depth ms
        ∧ List.Forall₂ (IsPrintedAs sp (depth + 1)) ms more
        ∧ (everyMember Number.isKeptExactly ms = true →
          Spelling.named? more = some (memberMeanings ms))
  | [] => ⟨sp.lineBlanks depth, [], rfl, .nil, fun _ => rfl⟩
  | (name, d) :: ms => by
    obtain ⟨s, hbytes, hwritten⟩ := exists_spelled sp (depth + 1) d
    obtain ⟨after, more, hmoreBytes, hprinted, hnamed⟩ := exists_moreMembers sp depth ms
    refine ⟨.none, ⟨printedName sp (depth + 1) name, sp.colonBlanks, s, after⟩ :: more, ?_,
      .cons ⟨Quoted.text?_ofText name, hbytes, hwritten⟩ hprinted, fun hexact => ?_⟩
    · rw [Spelling.moreMembers, hmoreBytes, hbytes, nameBytes_printedName, moreMembers]
      simp only [Blanks.none, Spacing.colonBlanks, List.append_assoc, List.cons_append,
        List.nil_append]
    · obtain ⟨hfirst, hmore⟩ := Bool.and_eq_true_iff.mp hexact
      rw [printedName, Spelling.named?, Quoted.text?_ofText, hwritten.meaning hfirst, hnamed hmore]
      rfl

end

/-- What is printed for a document whose numbers are kept exactly is a text that denotes the
same. -/
theorem exists_spelling (sp : Spacing) (depth : Nat) (d : Document)
    (hexact : d.everyNumber Number.isKeptExactly = true) :
    ∃ s : Spelling, s.bytes = d.print sp depth ∧ s.meaning? = some d.meaning := by
  obtain ⟨s, hbytes, hwritten⟩ := exists_spelled sp depth d
  exact ⟨s, hbytes, hwritten.meaning hexact⟩

end Document

end Json

end BootTrust
