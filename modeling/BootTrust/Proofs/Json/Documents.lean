import BootTrust.Proofs.Json.Numbers
import BootTrust.Json.Reader
/-
Documents are read back as they were written, if two things are so. Every number is kept as
an integer (`isExact`): a floating point number is printed in its shortest form, and the
reader need not find the way back to it. And the brackets are not nested more deeply than the
reader allows (`FitsIn`).

The second condition costs nothing where the document has been read before, since nothing is read
that does not fit (`fitsIn_of_document`), and bringing a document into its normal form opens no
bracket (`FitsIn.normal`). So a value that came out of a text can be written and read again, as long
as it is exact and is not put deeper than it was (`value_print`).

All inductions are on the depth that is still allowed, as the reader's recursion is. What happens
between the brackets is a loop, which is taken as a whole: printed items are taken one after the
other, and whatever each step of a loop keeps, the loop keeps.
-/

set_option autoImplicit false

namespace BootTrust.Json

variable {σ : Type}

/-! ## What a loop keeps -/

section Loops

variable {holds : σ → Prop}

theorem itemLoop_keeps {step : σ → Bytes → Except Fault (σ × Bytes)}
    (hstep : ∀ state rest state' rest', holds state → step state rest = .ok (state', rest') →
      holds state') {bound : Nat} {state state' : σ} {rest rest' : Bytes} (hstate : holds state)
    (h : itemLoop step bound state rest = .ok (state', rest')) : holds state' := by
  induction bound generalizing state rest with
  | zero => cases h
  | succ bound ih =>
    rw [itemLoop] at h
    obtain ⟨⟨state₁, rest₁⟩, hfirst, h⟩ := Steps.bind_eq_ok_iff.mp h
    have hnow := hstep _ _ _ _ hstate hfirst
    simp only at h
    split at h
    · cases h
    · split at h
      · cases h
        exact hnow
      · split at h
        · obtain ⟨rest₂, -, h⟩ := Steps.bind_eq_ok_iff.mp h
          exact ih hnow h
        · cases h

theorem items_keeps (holds : σ → Prop) {step : σ → Bytes → Except Fault (σ × Bytes)}
    (hstep : ∀ state rest state' rest', holds state → step state rest = .ok (state', rest') →
      holds state') {state state' : σ} {rest rest' : Bytes} (hstate : holds state)
    (h : items step state rest = .ok (state', rest')) : holds state' := by
  unfold items at h
  split at h
  · cases h
  · split at h
    · cases h
      exact hstate
    · exact itemLoop_keeps hstep hstate h

theorem memberLoop_keeps {step : σ → String → Bytes → Except Stop (σ × Bytes)}
    (hstep : ∀ state name rest state' rest', holds state →
      step state name rest = .ok (state', rest') → holds state')
    {bound : Nat} {state state' : σ} {rest rest' : Bytes} (hstate : holds state)
    (h : memberLoop step bound state rest = .ok (state', rest')) : holds state' := by
  induction bound generalizing state rest with
  | zero => cases h
  | succ bound ih =>
    rw [memberLoop] at h
    obtain ⟨⟨name, rest₁⟩, -, h⟩ := Steps.bind_eq_ok_iff.mp h
    obtain ⟨⟨state₂, rest₂⟩, hfirst, h⟩ := Steps.bind_eq_ok_iff.mp h
    have hnow := hstep _ _ _ _ _ hstate hfirst
    simp only at h
    split at h
    · cases h
    · split at h
      · cases h
        exact hnow
      · split at h
        · obtain ⟨rest₃, -, h⟩ := Steps.bind_eq_ok_iff.mp h
          exact ih hnow h
        · cases h

theorem members_keeps (holds : σ → Prop) {step : σ → String → Bytes → Except Stop (σ × Bytes)}
    (hstep : ∀ state name rest state' rest', holds state →
      step state name rest = .ok (state', rest') → holds state')
    {state state' : σ} {rest rest' : Bytes} (hstate : holds state)
    (h : members step state rest = .ok (state', rest')) : holds state' := by
  unfold members at h
  split at h
  · cases h
  · split at h
    · cases h
      exact hstate
    · split at h
      · exact memberLoop_keeps hstep hstate h
      · cases h

end Loops

theorem stopped_eq_ok_iff {α : Type} {x : Except Fault α} {a : α} :
    stopped x = .ok a ↔ x = .ok a := by
  rcases x with fault | b
  · simp [stopped]
  · simp [stopped]

namespace Document

/-! ## Exact numbers and the depth of brackets -/

mutual

/-- Whether every number in a document is kept as an integer. -/
def isExact : Document → Bool
  | .number n => n.isInteger
  | .array items => itemsExact items
  | .object members => membersExact members
  | _ => true

def itemsExact : List Document → Bool
  | [] => true
  | d :: ds => d.isExact && itemsExact ds

def membersExact : List (String × Document) → Bool
  | [] => true
  | (_, d) :: ms => d.isExact && membersExact ms

end

theorem itemsExact_iff {ds : List Document} :
    itemsExact ds = true ↔ ∀ d ∈ ds, d.isExact = true := by
  induction ds with
  | nil => simp [itemsExact]
  | cons d ds ih => simp [itemsExact, ih]

theorem membersExact_iff {ms : List (String × Document)} :
    membersExact ms = true ↔ ∀ m ∈ ms, m.2.isExact = true := by
  induction ms with
  | nil => simp [membersExact]
  | cons m ms ih => simp [membersExact, ih]

/-- Whether at most `depth` brackets are open at a time. -/
def FitsIn : (depth : Nat) → Document → Prop
  | 0, .array _ => False
  | 0, .object _ => False
  | depth + 1, .array items => ∀ d ∈ items, d.FitsIn depth
  | depth + 1, .object members => ∀ m ∈ members, m.2.FitsIn depth
  | _, _ => True

/-- Whether a document is one piece, without brackets. -/
def isPiece : Document → Bool
  | .array _ => false
  | .object _ => false
  | _ => true

theorem fitsIn_of_isPiece {d : Document} (h : d.isPiece = true) (depth : Nat) : d.FitsIn depth := by
  rcases depth with _ | depth
  · rcases d with _ | _ | _ | _ | ds | ms <;> trivial
  · rcases d with _ | _ | _ | _ | ds | ms <;> trivial

/-! ## Normal form -/

theorem normalItems_eq_map (ds : List Document) : normalItems ds = ds.map normal := by
  induction ds with
  | nil => rfl
  | cons d ds ih => rw [normalItems, ih, List.map_cons]

theorem normalMembers_eq_map (ms : List (String × Document)) :
    normalMembers ms = ms.map fun m => (m.1, m.2.normal) := by
  induction ms with
  | nil => rfl
  | cons m ms ih => rw [normalMembers, ih, List.map_cons]

/-- The normal form opens no bracket. -/
theorem FitsIn.normal {depth : Nat} {d : Document} (h : d.FitsIn depth) :
    d.normal.FitsIn depth := by
  induction depth generalizing d with
  | zero =>
    rcases d with _ | _ | _ | _ | ds | ms <;> first | exact h.elim | trivial
  | succ depth ih =>
    rcases d with _ | _ | _ | _ | ds | ms
    case array =>
      rw [Document.normal, normalItems_eq_map]
      intro d hd
      obtain ⟨d', hmem, rfl⟩ := List.mem_map.mp hd
      exact ih (h d' hmem)
    case object =>
      rw [Document.normal, normalMembers_eq_map]
      intro m hm
      obtain ⟨m', hmem, rfl⟩ := List.mem_map.mp (mem_of_mem_sortEntries hm)
      exact ih (h m' hmem)
    all_goals trivial

mutual

/-- A document in normal form is its own normal form. -/
theorem normal_of_isNormal : (d : Document) → d.IsNormal → d.normal = d
  | .null, _ | .bool _, _ | .number _, _ | .string _, _ => by rw [normal] <;> simp
  | .array items, h => by
    rw [normal, normalItems_of_itemsNormal items h]
  | .object members, h => by
    rw [normal, normalMembers_of_membersNormal members h.2]
    rw [h.1.sortEntries]

theorem normalItems_of_itemsNormal : (ds : List Document) → ItemsNormal ds → normalItems ds = ds
  | [], _ => rfl
  | d :: ds, h => by
    rw [normalItems, normal_of_isNormal d h.1, normalItems_of_itemsNormal ds h.2]

theorem normalMembers_of_membersNormal :
    (ms : List (String × Document)) → MembersNormal ms → normalMembers ms = ms
  | [], _ => rfl
  | (name, d) :: ms, h => by
    rw [normalMembers, normal_of_isNormal d h.1, normalMembers_of_membersNormal ms h.2]

end

end Document

theorem Value.ofDocument_document (v : Value) : Value.ofDocument v.document = v := by
  obtain ⟨d, hd⟩ := v
  simp only [Value.ofDocument, Document.normal_of_isNormal d hd]

/-! ## One document -/

/-- What the reader of documents does with an item of an array. -/
def documentItem (depth : Nat) (ds : List Document) (rest : Bytes) :
    Except Fault (List Document × Bytes) := do
  let (d, rest) ← document depth rest
  return (d :: ds, rest)

/-- What it does with a member of an object, from behind the name on. -/
def documentMember (depth : Nat) (ms : List (String × Document)) (name : String) (rest : Bytes) :
    Except Stop (List (String × Document) × Bytes) := do
  let rest ← stopped (colon rest)
  let (d, rest) ← stopped (document depth rest)
  return ((name, d) :: ms, rest)

/-- Blanks before a document do not matter. -/
theorem document_blanks (depth : Nat) {blanks : Bytes} (h : ∀ b ∈ blanks, isBlankByte b = true)
    (text : Bytes) : document depth (blanks ++ text) = document depth text := by
  unfold document
  rw [skipBlanks_append h]

theorem document_array (depth : Nat) (body : Bytes) :
    document (depth + 1) (openArray :: body) = (do
      let (ds, rest) ← items (documentItem depth) [] body
      return (.array ds.reverse, rest)) := by
  rw [document, skipBlanks_cons (by decide)]
  rfl

theorem document_object (depth : Nat) (body : Bytes) :
    document (depth + 1) (openObject :: body)
      = match members (documentMember depth) [] body with
        | .error stop => .error (stop.toFault afterClosingObject)
        | .ok (ms, rest) => .ok (.object ms.reverse, rest) := by
  rw [document, skipBlanks_cons (by decide)]
  rfl

theorem document_quote (depth : Nat) (rest : Bytes) :
    document depth (quoteByte :: rest) = (do
      let (s, rest) ← string rest
      return (.string s, rest)) := by
  unfold document
  rw [skipBlanks_cons (by decide)]
  rfl

theorem document_minus (depth : Nat) (rest : Bytes) :
    document depth (minusByte :: rest) = (do
      let (n, rest) ← number false rest
      return (.number n, rest)) := by
  unfold document
  rw [skipBlanks_cons (by decide)]
  rfl

theorem ne_of_isDigit {b c : UInt8} (hb : isDigit b = true) (hc : isDigit c = false) : b ≠ c := by
  rintro rfl
  rw [hc] at hb
  cases hb

theorem document_digit (depth : Nat) {b : UInt8} (h : isDigit b = true) (rest : Bytes) :
    document depth (b :: rest) = (do
      let (n, rest) ← number true (b :: rest)
      return (.number n, rest)) := by
  unfold document
  rw [skipBlanks_cons (isBlankByte_of_isDigit h)]
  -- a digit is none of the letters and no sign
  simp only [if_neg (ne_of_isDigit h (by decide : isDigit 0x6E = false)),
    if_neg (ne_of_isDigit h (by decide : isDigit 0x74 = false)),
    if_neg (ne_of_isDigit h (by decide : isDigit 0x66 = false)),
    if_neg (ne_of_isDigit h (by decide : isDigit minusByte = false)), if_pos h]

theorem document_string (depth : Nat) (s : String) (rest : Bytes) :
    document depth (stringBytes s ++ rest) = .ok (.string s, rest) := by
  rw [stringBytes, List.cons_append, List.cons_append, List.append_assoc, List.singleton_append,
    document_quote, string_encode]
  rfl

theorem word_append (letters rest : Bytes) : word letters (letters ++ rest) = .ok rest := by
  induction letters with
  | nil => rfl
  | cons l letters ih => rw [List.cons_append, word, if_pos rfl, ih]

theorem document_number (depth : Nat) (n : Int) (inRange : leastInteger ≤ n ∧ n ≤ greatestInteger)
    {rest : Bytes} (hends : EndsValue rest) :
    document depth ((Number.integer n inRange).bytes ++ rest)
      = .ok (.number (.integer n inRange), rest) := by
  rcases number_integer n inRange hends with ⟨digits, hbytes, hread⟩
    | ⟨b, digits, hbytes, hdigit, hread⟩
  · rw [hbytes, List.cons_append, document_minus, hread]
    rfl
  · rw [List.cons_append] at hread
    rw [hbytes, List.cons_append, document_digit depth hdigit, hread]
    rfl

/-- The words, split behind their first letters. -/
theorem encode_words : Utf8.encode "null" = 0x6E :: Utf8.encode "ull"
    ∧ Utf8.encode "true" = 0x74 :: Utf8.encode "rue"
    ∧ Utf8.encode "false" = 0x66 :: Utf8.encode "alse" :=
  ⟨rfl, rfl, rfl⟩

theorem document_word (depth : Nat) (rest : Bytes) :
    document depth (Utf8.encode "null" ++ rest) = .ok (.null, rest)
      ∧ document depth (Utf8.encode "true" ++ rest) = .ok (.bool true, rest)
      ∧ document depth (Utf8.encode "false" ++ rest) = .ok (.bool false, rest) := by
  obtain ⟨hnull, htrue, hfalse⟩ := encode_words
  unfold document
  rw [hnull, htrue, hfalse, List.cons_append, List.cons_append, List.cons_append,
    skipBlanks_cons (by decide), skipBlanks_cons (by decide), skipBlanks_cons (by decide)]
  simp only [word_append]
  exact ⟨rfl, rfl, rfl⟩

/-- A document that was read is one piece, or its items or members were read one bracket deeper. -/
theorem document_eq_ok {depth : Nat} {text rest : Bytes} {d : Document}
    (h : document depth text = .ok (d, rest)) :
    d.isPiece = true
      ∨ (∃ below ds body, depth = below + 1 ∧ d = .array ds.reverse
        ∧ items (documentItem below) [] body = .ok (ds, rest))
      ∨ ∃ below ms body, depth = below + 1 ∧ d = .object ms.reverse
        ∧ members (documentMember below) [] body = .ok (ms, rest) := by
  unfold document at h
  split at h
  · cases h
  -- the first byte decides: three words, a number with or without a sign, a string, two brackets
  iterate 6
    split at h
    · obtain ⟨_, -, h⟩ := Steps.bind_eq_ok_iff.mp h
      cases h
      exact Or.inl rfl
  split at h
  · rcases depth with _ | below
    · cases h
    · obtain ⟨⟨ds, left⟩, hitems, h⟩ := Steps.bind_eq_ok_iff.mp h
      cases h
      exact Or.inr (Or.inl ⟨below, ds, _, rfl, rfl, hitems⟩)
  split at h
  · rcases depth with _ | below
    · cases h
    · simp only at h
      split at h
      · cases h
      · next ms left hmembers =>
        cases h
        exact Or.inr (Or.inr ⟨below, ms, _, rfl, rfl, hmembers⟩)
  · cases h

/-- What is read fits into the depth that was allowed. -/
theorem fitsIn_of_document {depth : Nat} {text rest : Bytes} {d : Document}
    (h : document depth text = .ok (d, rest)) : d.FitsIn depth := by
  induction depth generalizing text rest d with
  | zero =>
    rcases document_eq_ok h with hpiece | ⟨below, _, _, hdepth, -⟩ | ⟨below, _, _, hdepth, -⟩
    · exact Document.fitsIn_of_isPiece hpiece 0
    · cases hdepth
    · cases hdepth
  | succ depth ih =>
    rcases document_eq_ok h with hpiece | ⟨below, ds, body, hdepth, rfl, hitems⟩
      | ⟨below, ms, body, hdepth, rfl, hmembers⟩
    · exact Document.fitsIn_of_isPiece hpiece _
    · cases hdepth
      have hall : ∀ d ∈ ds, d.FitsIn depth := by
        refine items_keeps (fun ds => ∀ d ∈ ds, Document.FitsIn depth d) ?_ (by simp) hitems
        intro ds rest ds' rest' hds hstep
        obtain ⟨⟨d, left⟩, hd, hstep⟩ := Steps.bind_eq_ok_iff.mp hstep
        cases hstep
        exact List.forall_mem_cons.mpr ⟨ih hd, hds⟩
      exact fun d hd => hall d (List.mem_reverse.mp hd)
    · cases hdepth
      have hall : ∀ m ∈ ms, m.2.FitsIn depth := by
        refine members_keeps (fun ms => ∀ m ∈ ms, Document.FitsIn depth m.2) ?_ (by simp)
          hmembers
        intro ms name rest ms' rest' hms hstep
        obtain ⟨_, -, hstep⟩ := Steps.bind_eq_ok_iff.mp hstep
        obtain ⟨⟨d, left⟩, hd, hstep⟩ := Steps.bind_eq_ok_iff.mp hstep
        cases hstep
        exact List.forall_mem_cons.mpr ⟨ih (stopped_eq_ok_iff.mp hd), hms⟩
      exact fun m hm => hall m (List.mem_reverse.mp hm)

/-- So does a value that was read. -/
theorem fitsIn_of_value {depth : Nat} {text rest : Bytes} {v : Value}
    (h : value depth text = .ok (v, rest)) : v.document.FitsIn depth := by
  obtain ⟨⟨d, left⟩, hd, h⟩ := Steps.bind_eq_ok_iff.mp h
  cases h
  exact (fitsIn_of_document hd).normal

/-! ## What is printed is read back -/

/-- A printed document that is exact begins with a byte that is no blank and closes no array. -/
theorem exists_first_byte {d : Document} (hexact : d.isExact = true) (sp : Spacing) (depth : Nat) :
    ∃ b body, d.print sp depth = b :: body ∧ isBlankByte b = false ∧ b ≠ closeArray := by
  obtain ⟨hnull, htrue, hfalse⟩ := encode_words
  rcases d with _ | b | n | s | ds | ms
  · exact ⟨_, _, by rw [Document.print, hnull], by decide, by decide⟩
  · rcases b with _ | _
    · exact ⟨_, _, by rw [Document.print, hfalse], by decide, by decide⟩
    · exact ⟨_, _, by rw [Document.print, htrue], by decide, by decide⟩
  · rcases n with ⟨n, inRange⟩ | x
    · have hends : EndsValue [] := fun b hb => by cases hb
      rcases number_integer n inRange hends with ⟨digits, hbytes, -⟩
        | ⟨b, digits, hbytes, hdigit, -⟩
      · exact ⟨_, _, by rw [Document.print, hbytes], by decide, by decide⟩
      · refine ⟨_, _, by rw [Document.print, hbytes], isBlankByte_of_isDigit hdigit, ?_⟩
        rintro rfl
        exact absurd hdigit (by decide)
    · cases hexact
  · exact ⟨_, _, by rw [Document.print, stringBytes, List.cons_append], by decide, by decide⟩
  · rcases ds with _ | ⟨d, ds⟩
    · exact ⟨_, _, by rw [Document.print], by decide, by decide⟩
    · exact ⟨_, _, by rw [Document.print], by decide, by decide⟩
  · obtain ⟨body, hbody⟩ := print_object sp depth ms
    exact ⟨_, _, hbody, by decide, by decide⟩

theorem document_print_piece {d : Document} (hexact : d.isExact = true) (hpiece : d.isPiece = true)
    (depth : Nat) (sp : Spacing) (level : Nat) {rest : Bytes} (hends : EndsValue rest) :
    document depth (d.print sp level ++ rest) = .ok (d, rest) := by
  obtain ⟨hnull, htrue, hfalse⟩ := document_word depth rest
  rcases d with _ | b | n | s | ds | ms
  · rw [Document.print]
    exact hnull
  · rcases b with _ | _
    · rw [Document.print]
      exact hfalse
    · rw [Document.print]
      exact htrue
  · rcases n with ⟨n, inRange⟩ | x
    · rw [Document.print]
      exact document_number depth n inRange hends
    · cases hexact
  · rw [Document.print]
    exact document_string depth s rest
  · cases hpiece
  · cases hpiece

/-- Collecting in front is collecting in reverse. -/
theorem foldl_cons_reverse {α : Type} (as : List α) :
    (as.foldl (fun collected a => a :: collected) []).reverse = as := by
  rw [List.foldl_flip_cons_eq_append', List.append_nil, List.reverse_reverse]

/-- A document that is exact and fits is read back from what is printed for it, whatever follows. -/
theorem document_print {depth : Nat} {d : Document} (hexact : d.isExact = true)
    (hfits : d.FitsIn depth) (sp : Spacing) (level : Nat) {rest : Bytes} (hends : EndsValue rest) :
    document depth (d.print sp level ++ rest) = .ok (d, rest) := by
  induction depth generalizing d level rest with
  | zero =>
    refine document_print_piece hexact ?_ 0 sp level hends
    rcases d with _ | _ | _ | _ | ds | ms <;> first | rfl | exact hfits.elim
  | succ depth ih =>
    rcases hpiece : d.isPiece with _ | _
    · rcases d with _ | _ | _ | _ | ds | ms
      case array =>
        have hds := Document.itemsExact_iff.mp hexact
        have htakes : ∀ d ∈ ds,
            TakesItem (documentItem depth) (fun ds d => d :: ds) sp level d := by
          intro d hd
          refine ⟨exists_first_byte (hds d hd) sp (level + 1), fun state rest hends => ?_⟩
          rw [documentItem, ih (hds d hd) (hfits d hd) (level + 1) hends]
          rfl
        obtain ⟨body, hbody, hitems⟩ := items_print htakes [] rest
        rw [hbody, document_array, hitems]
        exact congrArg (fun ds => Except.ok (Document.array ds, rest)) (foldl_cons_reverse ds)
      case object =>
        have hms := Document.membersExact_iff.mp hexact
        have htakes : ∀ m ∈ ms, Takes (documentMember depth) (fun ms m => m :: ms) sp level m := by
          intro m hm state rest hends
          have hread := ih (hms m hm) (hfits m hm) (level + 1) hends
          rw [documentMember, afterName, List.cons_append, colon_colonByte]
          simp only [stopped, bind, Except.bind, List.append_assoc,
            document_blanks depth sp.afterColon_blank, hread]
          rfl
        obtain ⟨body, hbody, hmembers⟩ := members_print (TakesAll.of_takes htakes []) rest
        rw [hbody, document_object, hmembers]
        exact congrArg (fun ms => Except.ok (Document.object ms, rest)) (foldl_cons_reverse ms)
      all_goals cases hpiece
    · exact document_print_piece hexact hpiece (depth + 1) sp level hends

/-- A value is read back from what is printed for it, with blanks before it and whatever follows. -/
theorem value_print {depth : Nat} {v : Value} (hexact : v.document.isExact = true)
    (hfits : v.document.FitsIn depth) (sp : Spacing) (level : Nat) {blanks rest : Bytes}
    (hblanks : ∀ b ∈ blanks, isBlankByte b = true) (hends : EndsValue rest) :
    value depth (blanks ++ v.document.print sp level ++ rest) = .ok (v, rest) := by
  rw [value, List.append_assoc, document_blanks depth hblanks,
    document_print hexact hfits sp level hends]
  show Except.ok (Value.ofDocument v.document, rest) = _
  rw [v.ofDocument_document]

end BootTrust.Json
