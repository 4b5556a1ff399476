import BootTrust.Proofs.Spelling.NumberEnds
import BootTrust.Proofs.Spelling.Records
/-
What a text is kept as when it is read as a document, whatever the text is. It is put together from
what is kept of its parts (`Spelling.kept?`): a number as floating point number if need be, a string
as its text, and an item or a member one bracket deeper. The reader of documents does this and
nothing else (`readsAs_document`).

An array is a fold over its items as an object is one over its members, provided that each step
stops exactly behind its item. What the steps collect in front is the same as a walk over all items,
in reverse (`foldlM_collect`).
-/

set_option autoImplicit false

namespace BootTrust.Json

/-! ## Items one after the other -/

/-- The items of an array, in the order in which they are written. -/
def Spelling.items? : Spelling → Option (List (Padded Spelling))
  | emptyArray _ => some []
  | array first more => some (first :: more)
  | _ => none

section Loops

variable {σ : Type} {step : σ → Bytes → Except Fault (σ × Bytes)}
  {effect? : σ → Spelling → Option σ} {state final : σ} {bound : Nat} {rest left : Bytes}

/-- Whether a step of a reader does to its state what an item does, and refuses the item if that is
nothing. It stops exactly behind the item. -/
def StepsThrough (step : σ → Bytes → Except Fault (σ × Bytes))
    (effect? : σ → Spelling → Option σ) : Prop :=
  ∀ (state : σ) (s : Spelling) {rest left : Bytes} {state' : σ}, EndsValue rest →
    (step state (s.bytes ++ rest) = .ok (state', left)
      ↔ effect? state s = some state' ∧ left = rest)

/-- What the loop does behind an item. -/
def itemsBehind (step : σ → Bytes → Except Fault (σ × Bytes)) (bound : Nat) (state : σ)
    (rest : Bytes) : Except Fault (σ × Bytes) :=
  match skipBlanks rest with
  | [] => .error (.on .endInArray [])
  | b :: rest =>
    if b = closeArray then return (state, rest)
    else if b = commaByte then do itemLoop step bound state (← nextItem rest)
    else .error (.on .expectedCommaOrEndOfArray (b :: rest))

/-- One round of the loop. -/
theorem itemLoop_succ (step : σ → Bytes → Except Fault (σ × Bytes)) (bound : Nat) (state : σ)
    (text : Bytes) :
    itemLoop step (bound + 1) state text = (do
      let stepped ← step state text
      itemsBehind step bound stepped.1 stepped.2) := rfl

theorem itemsBehind_last (step : σ → Bytes → Except Fault (σ × Bytes)) (bound : Nat) (state : σ)
    (blanks : Blanks) (rest : Bytes) :
    itemsBehind step bound state (blanks.bytes ++ (Spelling.moreItems [] ++ rest))
      = .ok (state, rest) := by
  rw [itemsBehind, skipBlanks_append blanks.areBlank, Spelling.moreItems, List.singleton_append,
    skipBlanks_cons (by decide)]
  rfl

theorem itemsBehind_next (step : σ → Bytes → Except Fault (σ × Bytes)) (bound : Nat) (state : σ)
    (blanks : Blanks) (next : Padded Spelling) (more : List (Padded Spelling)) (rest : Bytes) :
    itemsBehind step bound state (blanks.bytes ++ (Spelling.moreItems (next :: more) ++ rest))
      = itemLoop step bound state
        (next.inner.bytes ++ (next.after.bytes ++ (Spelling.moreItems more ++ rest))) := by
  have hnext : ∀ tail, nextItem (next.before.bytes ++ (next.inner.bytes ++ tail))
      = .ok (next.inner.bytes ++ tail) := by
    intro tail
    obtain ⟨b, body, hbytes, -, hclose⟩ := next.inner.exists_first_byte
    rw [nextItem, Spelling.skipBlanks_bytes, hbytes]
    simp only [List.cons_append, if_neg hclose]
  have hcomma : ¬ commaByte = closeArray := by decide
  rw [itemsBehind, skipBlanks_append blanks.areBlank, Spelling.moreItems_append,
    skipBlanks_cons (by decide)]
  simp only [if_neg hcomma, if_true, hnext]
  rfl

/-- A round of the loop is an item and what comes behind it. -/
theorem itemLoop_succ_iff (h : StepsThrough step effect?) (s : Spelling) (hends : EndsValue rest) :
    itemLoop step (bound + 1) state (s.bytes ++ rest) = .ok (final, left)
      ↔ ∃ state', effect? state s = some state'
        ∧ itemsBehind step bound state' rest = .ok (final, left) := by
  rw [itemLoop_succ, Steps.bind_eq_ok_iff]
  constructor
  · rintro ⟨⟨state', behind⟩, hstep, hbehind⟩
    obtain ⟨heffect, rfl⟩ := (h state s hends).mp hstep
    exact ⟨state', heffect, hbehind⟩
  · rintro ⟨state', heffect, hbehind⟩
    exact ⟨_, (h state s hends).mpr ⟨heffect, rfl⟩, hbehind⟩

/-- The loop is a fold over the items, if it has a round for each of them. -/
theorem itemLoop_eq_ok_iff (h : StepsThrough step effect?) {item : Padded Spelling}
    {more : List (Padded Spelling)} (hbound : more.length < bound) :
    itemLoop step bound state (item.inner.bytes
      ++ (item.after.bytes ++ (Spelling.moreItems more ++ rest))) = .ok (final, left)
      ↔ (item :: more).foldlM (fun state item => effect? state item.inner) state = some final
        ∧ left = rest := by
  induction more generalizing item state bound with
  | nil =>
    obtain ⟨bound, rfl⟩ : ∃ b, bound = b + 1 := ⟨bound - 1, by omega⟩
    rw [itemLoop_succ_iff h _ (item.after.endsValue (Spelling.endsValue_moreItems [] rest)),
      List.foldlM_cons]
    simp only [itemsBehind_last, List.foldlM_nil]
    constructor
    · rintro ⟨state', heffect, hlast⟩
      cases hlast
      exact ⟨by rw [heffect]; rfl, rfl⟩
    · rintro ⟨hfold, rfl⟩
      obtain ⟨state', heffect, hlast⟩ := Option.bind_eq_some_iff.mp hfold
      cases hlast
      exact ⟨_, heffect, rfl⟩
  | cons next more ih =>
    obtain ⟨bound, rfl⟩ : ∃ b, bound = b + 1 := ⟨bound - 1, by omega⟩
    have hmore : more.length < bound := by
      rw [List.length_cons] at hbound
      omega
    rw [itemLoop_succ_iff h _
      (item.after.endsValue (Spelling.endsValue_moreItems (next :: more) rest)), List.foldlM_cons]
    simp only [itemsBehind_next, ih hmore]
    constructor
    · rintro ⟨state', heffect, hfold, rfl⟩
      exact ⟨by rw [heffect]; exact hfold, rfl⟩
    · rintro ⟨hfold, rfl⟩
      obtain ⟨state', heffect, hfold⟩ := Option.bind_eq_some_iff.mp hfold
      exact ⟨state', heffect, hfold, rfl⟩

theorem Spelling.length_moreItems (more : List (Padded Spelling)) :
    more.length < (moreItems more).length := by
  induction more with
  | nil => exact Nat.zero_lt_one
  | cons item more ih =>
    have happend := moreItems_append item more []
    rw [List.append_nil, List.append_nil] at happend
    rw [happend]
    simp only [List.length_cons, List.length_append]
    omega

/-- An array is read as the fold over its items, from behind its opening bracket. -/
theorem items_eq_ok_iff (h : StepsThrough step effect?) {s : Spelling}
    {all : List (Padded Spelling)} (hall : s.items? = some all) {body : Bytes}
    (hbody : s.bytes ++ rest = openArray :: body) :
    items step state body = .ok (final, left)
      ↔ all.foldlM (fun state item => effect? state item.inner) state = some final
        ∧ left = rest := by
  cases s with
  | emptyArray inside =>
    cases hall
    rw [Spelling.emptyArray_append] at hbody
    obtain rfl := (List.cons.inj hbody).2
    rw [items, skipBlanks_append inside.areBlank, skipBlanks_cons (by decide)]
    simp only [if_true, List.foldlM_nil]
    constructor
    · rintro ⟨⟩
      exact ⟨rfl, rfl⟩
    · rintro ⟨⟨⟩, rfl⟩
      rfl
  | array first more =>
    cases hall
    rw [Spelling.array_append] at hbody
    obtain rfl := (List.cons.inj hbody).2
    obtain ⟨b, inner, hbytes, -, hclose⟩ := first.inner.exists_first_byte
    have hloop : items step state (first.before.bytes ++ (first.inner.bytes
        ++ (first.after.bytes ++ (Spelling.moreItems more ++ rest))))
        = itemLoop step
          ((inner ++ (first.after.bytes ++ (Spelling.moreItems more ++ rest))).length + 1) state
          (first.inner.bytes ++ (first.after.bytes ++ (Spelling.moreItems more ++ rest))) := by
      rw [items, Spelling.skipBlanks_bytes, hbytes]
      simp only [List.cons_append, if_neg hclose]
    have hlength := Spelling.length_moreItems more
    rw [hloop]
    refine itemLoop_eq_ok_iff h ?_
    simp only [List.length_append]
    omega
  | _ => cases hall

end Loops

/-- A fold that collects in front what is made of each element is a walk over them all. -/
theorem foldlM_collect {α β : Type} (f : α → Option β) (as : List α) (collected : List β) :
    as.foldlM (fun collected a => (f a).map (· :: collected)) collected
      = (as.mapM f).map fun bs => bs.reverse ++ collected := by
  induction as generalizing collected with
  | nil => rfl
  | cons a as ih =>
    rw [List.foldlM_cons, List.mapM_cons]
    rcases f a with _ | b
    · rfl
    · simp only [Option.map_some, Option.bind_eq_bind, Option.bind_some, ih]
      rcases as.mapM f with _ | bs
      · rfl
      · simp

/-! ## Documents -/

/-- What a member is kept as, if it is known what values are kept as. Its name has to be a text. -/
def Member.keptBy? (kept? : Spelling → Option Document) (m : Member Spelling) :
    Option (String × Document) :=
  m.name.inner.text?.bind fun name => (kept? m.value.inner).map fun d => (name, d)

/-- What a text is kept as if at most `depth` brackets may be open at a time. -/
def Spelling.kept? : (depth : Nat) → Spelling → Option Document
  | _, null => some .null
  | _, bool b => some (.bool b)
  | _, number l => l.kept?.map .number
  | _, string q => q.text?.map .string
  | 0, _ => none
  | _ + 1, emptyArray _ => some (.array [])
  | depth + 1, array first more =>
    ((first :: more).mapM fun (item : Padded Spelling) => kept? depth item.inner).map .array
  | _ + 1, emptyObject _ => some (.object [])
  | depth + 1, object first more =>
    ((first :: more).mapM (Member.keptBy? (kept? depth))).map .object

theorem Spelling.exists_items_body {s : Spelling} {all : List (Padded Spelling)}
    (h : s.items? = some all) (rest : Bytes) : ∃ body, s.bytes ++ rest = openArray :: body := by
  cases s with
  | emptyArray inside => exact ⟨_, emptyArray_append inside rest⟩
  | array first more => exact ⟨_, array_append first more rest⟩
  | _ => cases h

section Documents

variable {depth : Nat} {accept? : Spelling → Option Document} {rest left : Bytes} {d : Document}

/-- An item is collected as what it is kept as. -/
theorem stepsThrough_documentItem (h : ReadsAs (document depth) accept?) :
    StepsThrough (documentItem depth) fun ds s => (accept? s).map (· :: ds) := by
  intro ds s rest left ds' hends
  have hread : ∀ {d left}, document depth (s.bytes ++ rest) = .ok (d, left)
      ↔ accept? s = some d ∧ left = rest :=
    h .none s hends
  rw [documentItem, Steps.bind_eq_ok_iff]
  constructor
  · rintro ⟨⟨d, behind⟩, hd, hds⟩
    cases hds
    obtain ⟨haccept, rfl⟩ := hread.mp hd
    exact ⟨congrArg (Option.map (· :: ds)) haccept, rfl⟩
  · rintro ⟨hds, rfl⟩
    obtain ⟨d, haccept, rfl⟩ := Option.map_eq_some_iff.mp hds
    exact ⟨_, hread.mpr ⟨haccept, rfl⟩, rfl⟩

/-- So is a member, with its name. -/
theorem stepsAs_documentMember (h : ReadsAs (document depth) accept?) :
    StepsAs (documentMember depth) fun ms name s => (accept? s).map fun d => (name, d) :: ms := by
  intro ms name m rest left ms' hends
  rw [documentMember, colon_bytesBehind]
  constructor
  · intro hstep
    obtain ⟨_, ⟨⟩, hstep⟩ := Steps.bind_eq_ok_iff.mp hstep
    obtain ⟨⟨d, behind⟩, hd, hms⟩ := Steps.bind_eq_ok_iff.mp hstep
    cases hms
    obtain ⟨haccept, rfl⟩ := (h _ _ hends).mp (stopped_eq_ok_iff.mp hd)
    exact ⟨congrArg (Option.map fun d => (name, d) :: ms) haccept, rfl⟩
  · rintro ⟨hms, rfl⟩
    obtain ⟨d, haccept, rfl⟩ := Option.map_eq_some_iff.mp hms
    have hd := stopped_eq_ok_iff.mpr ((h m.value.before _ hends).mpr ⟨haccept, rfl⟩)
    exact Steps.bind_eq_ok_iff.mpr ⟨_, rfl, Steps.bind_eq_ok_iff.mpr ⟨_, hd, rfl⟩⟩

/-- An array is read as the walk over its items, one bracket deeper. -/
theorem document_eq_ok_of_items (h : ReadsAs (document depth) accept?) {s : Spelling}
    {all : List (Padded Spelling)} (hall : s.items? = some all) :
    document (depth + 1) (s.bytes ++ rest) = .ok (d, left)
      ↔ (all.mapM fun item => accept? item.inner).map Document.array = some d ∧ left = rest := by
  obtain ⟨body, hbody⟩ := Spelling.exists_items_body hall rest
  rw [hbody, document_array, Steps.bind_eq_ok_iff]
  simp only [Prod.exists, items_eq_ok_iff (stepsThrough_documentItem h) hall hbody, foldlM_collect,
    List.append_nil]
  generalize (all.mapM fun item => accept? item.inner) = kept
  rcases kept with _ | ds
  · simp
  · simp [pure, Except.pure, eq_comm]

/-- An object is read as the walk over its members. -/
theorem document_eq_ok_of_members (h : ReadsAs (document depth) accept?) {s : Spelling}
    {all : List (Member Spelling)} (hall : s.members? = some all) :
    document (depth + 1) (s.bytes ++ rest) = .ok (d, left)
      ↔ (all.mapM (Member.keptBy? accept?)).map Document.object = some d ∧ left = rest := by
  obtain ⟨body, hbody⟩ := Spelling.exists_body hall rest
  have hchange : Member.change? (fun ms name s => (accept? s).map fun d => (name, d) :: ms)
      = fun ms m => (Member.keptBy? accept? m).map (· :: ms) := by
    funext ms m
    rw [Member.change?, Member.keptBy?]
    rcases m.name.inner.text? with _ | name
    · rfl
    · rcases accept? m.value.inner with _ | d
      · rfl
      · rfl
  have hobject : document (depth + 1) (openObject :: body) = .ok (d, left)
      ↔ ∃ ms, members (documentMember depth) [] body = .ok (ms, left)
        ∧ Document.object ms.reverse = d := by
    rw [document_object]
    rcases members (documentMember depth) [] body with stop | ⟨ms, behind⟩
    · simp
    · simp [and_comm]
  rw [hbody, hobject]
  simp only [members_eq_ok_iff (stepsAs_documentMember h) hall hbody, hchange, foldlM_collect,
    List.append_nil]
  generalize all.mapM (Member.keptBy? accept?) = kept
  rcases kept with _ | ms
  · simp
  · simp [and_comm]

end Documents

/-- A text of one piece is read as what it is kept as, at any depth. -/
theorem document_eq_ok_of_piece (depth : Nat) {s : Spelling} (hitems : s.items? = none)
    (hmembers : s.members? = none) {rest left : Bytes} {d : Document} (hends : EndsValue rest) :
    document depth (s.bytes ++ rest) = .ok (d, left) ↔ s.kept? depth = some d ∧ left = rest := by
  obtain ⟨hnull, htrue, hfalse⟩ := document_word depth rest
  cases s with
  | null =>
    rw [Spelling.bytes, hnull, Spelling.kept?]
    simp [eq_comm]
  | bool b =>
    rcases b with _ | _
    · rw [Spelling.bytes, hfalse, Spelling.kept?]
      simp [eq_comm]
    · rw [Spelling.bytes, htrue, Spelling.kept?]
      simp [eq_comm]
  | number l =>
    rw [Spelling.bytes, document_literal, Steps.bind_eq_ok_iff, Spelling.kept?,
      Option.map_eq_some_iff]
    constructor
    · rintro ⟨⟨n, behind⟩, hread, hd⟩
      cases hd
      obtain ⟨hkept, rfl⟩ := (l.number_eq_ok_iff hends).mp hread
      exact ⟨⟨n, hkept, rfl⟩, rfl⟩
    · rintro ⟨⟨n, hkept, rfl⟩, rfl⟩
      exact ⟨_, (l.number_eq_ok_iff hends).mpr ⟨hkept, rfl⟩, rfl⟩
  | string q =>
    rw [Spelling.string_append, document_quote, Steps.bind_eq_ok_iff, Spelling.kept?,
      Option.map_eq_some_iff]
    constructor
    · rintro ⟨⟨t, behind⟩, hread, hd⟩
      cases hd
      obtain ⟨rfl, htext⟩ := string_quoted hread
      exact ⟨⟨t, htext, rfl⟩, rfl⟩
    · rintro ⟨⟨t, htext, rfl⟩, rfl⟩
      exact ⟨_, string_of_text? htext _, rfl⟩
  | emptyArray inside => cases hitems
  | array first more => cases hitems
  | emptyObject inside => cases hmembers
  | object first more => cases hmembers

/-- The reader of documents reads a text as what it is kept as. -/
theorem readsAs_document (depth : Nat) : ReadsAs (document depth) (Spelling.kept? depth) := by
  induction depth with
  | zero =>
    intro blanks s rest left d hends
    have hbracket : s.head = openArray ∨ s.head = openObject → s.kept? 0 = none →
        (document 0 (s.bytes ++ rest) = .ok (d, left) ↔ s.kept? 0 = some d ∧ left = rest) := by
      intro hhead hnone
      obtain ⟨body, hbytes⟩ := s.bytes_eq_cons
      rw [hbytes, List.cons_append, document_zero hhead, hnone]
      simp
    rw [document_blanks _ blanks.areBlank]
    cases s with
    | emptyArray inside => exact hbracket (Or.inl rfl) rfl
    | array first more => exact hbracket (Or.inl rfl) rfl
    | emptyObject inside => exact hbracket (Or.inr rfl) rfl
    | object first more => exact hbracket (Or.inr rfl) rfl
    | _ => exact document_eq_ok_of_piece 0 rfl rfl hends
  | succ depth ih =>
    intro blanks s rest left d hends
    rw [document_blanks _ blanks.areBlank]
    cases s with
    | emptyArray inside =>
      exact document_eq_ok_of_items ih (rfl : (Spelling.emptyArray inside).items? = some [])
    | array first more =>
      exact document_eq_ok_of_items ih
        (rfl : (Spelling.array first more).items? = some (first :: more))
    | emptyObject inside =>
      exact document_eq_ok_of_members ih (rfl : (Spelling.emptyObject inside).members? = some [])
    | object first more =>
      exact document_eq_ok_of_members ih
        (rfl : (Spelling.object first more).members? = some (first :: more))
    | _ => exact document_eq_ok_of_piece _ rfl rfl hends

/-- What a text is kept as is what it means to a reader of values. -/
theorem readsAs_value (depth : Nat) :
    ReadsAs (value depth) fun s => (s.kept? depth).map Value.ofDocument :=
  (readsAs_document depth).map Value.ofDocument

/-- A document that is exact and fits is kept as itself from what is printed for it. -/
theorem Spelling.kept?_of_print {depth : Nat} {d : Document} {s : Spelling} {sp : Spacing}
    {level : Nat} (hexact : d.isExact = true) (hfits : d.FitsIn depth)
    (hbytes : s.bytes = d.print sp level) : s.kept? depth = some d := by
  have hread := document_print hexact hfits sp level endsValue_nil
  rw [← hbytes] at hread
  exact ((readsAs_document depth .none s endsValue_nil).mp hread).1

end BootTrust.Json
