import BootTrust.Json.Printer
import BootTrust.Json.Typed
import BootTrust.Proofs.Json.Strings
import BootTrust.Proofs.Steps
/-
Printed objects and arrays are read back. A reader of objects is a loop with a step for a
member, and what the step does with a member is known only to the record or map that is read. So
the law is about any step that takes one printed member after the other (`TakesAll`): the loop
then takes all of them, in their order, and stops behind the closing brace (`members_print`).
The law of arrays is the same for items (`items_print`). The blanks of the printer do not
matter, hence any `Spacing` will do.

The bound of a loop is the number of bytes left, and each member or item is printed with at least
one byte, which is why the bound never strikes.
-/

set_option autoImplicit false

namespace BootTrust.Json

/-! ## What is printed is a text -/

theorem ascii_of_isBlankByte {b : UInt8} (h : isBlankByte b = true) : b.toNat < 0x80 := by
  simp only [isBlankByte, Bool.or_eq_true, decide_eq_true_eq] at h
  rcases h with ((rfl | rfl) | rfl) | rfl <;> decide

theorem Spacing.isText_lineBreak (sp : Spacing) (depth : Nat) : Utf8.IsText (sp.lineBreak depth) :=
  Utf8.IsText.of_ascii fun b hb => ascii_of_isBlankByte (sp.lineBreak_blank depth b hb)

theorem Spacing.isText_afterColon (sp : Spacing) : Utf8.IsText sp.afterColon :=
  Utf8.IsText.of_ascii fun b hb => ascii_of_isBlankByte (sp.afterColon_blank b hb)

namespace Document

mutual

/-- A printed document is a text. -/
theorem isText_print (sp : Spacing) (depth : Nat) : (d : Document) → Utf8.IsText (d.print sp depth)
  | .null => by
    rw [print]
    exact Utf8.IsText.encode _
  | .bool true => by
    rw [print]
    exact Utf8.IsText.encode _
  | .bool false => by
    rw [print]
    exact Utf8.IsText.encode _
  | .number n => by
    rw [print]
    exact Utf8.IsText.encode n.text
  | .string s => by
    rw [print]
    exact isText_stringBytes s
  | .array [] => by
    rw [print]
    exact Utf8.IsText.cons (by decide) (Utf8.IsText.ascii (by decide))
  | .array (d :: ds) => by
    rw [print]
    exact Utf8.IsText.cons (by decide)
      (((sp.isText_lineBreak _).append (isText_print sp (depth + 1) d)).append
        (isText_moreItems sp depth ds))
  | .object [] => by
    rw [print]
    exact Utf8.IsText.cons (by decide) (Utf8.IsText.ascii (by decide))
  | .object ((name, d) :: ms) => by
    rw [print]
    exact Utf8.IsText.cons (by decide)
      (((((sp.isText_lineBreak _).append (isText_stringBytes name)).append
        (Utf8.IsText.cons (by decide) sp.isText_afterColon)).append
        (isText_print sp (depth + 1) d)).append (isText_moreMembers sp depth ms))

theorem isText_moreItems (sp : Spacing) (depth : Nat) :
    (ds : List Document) → Utf8.IsText (moreItems sp depth ds)
  | [] => by
    rw [moreItems]
    exact (sp.isText_lineBreak _).append (Utf8.IsText.ascii (by decide))
  | d :: ds => by
    rw [moreItems]
    exact Utf8.IsText.cons (by decide)
      (((sp.isText_lineBreak _).append (isText_print sp (depth + 1) d)).append
        (isText_moreItems sp depth ds))

theorem isText_moreMembers (sp : Spacing) (depth : Nat) :
    (ms : List (String × Document)) → Utf8.IsText (moreMembers sp depth ms)
  | [] => by
    rw [moreMembers]
    exact (sp.isText_lineBreak _).append (Utf8.IsText.ascii (by decide))
  | (name, d) :: ms => by
    rw [moreMembers]
    exact Utf8.IsText.cons (by decide)
      (((((sp.isText_lineBreak _).append (isText_stringBytes name)).append
        (Utf8.IsText.cons (by decide) sp.isText_afterColon)).append
        (isText_print sp (depth + 1) d)).append (isText_moreMembers sp depth ms))

end

end Document

/-- A printed object begins with its opening brace. -/
theorem print_object (sp : Spacing) (depth : Nat) (ms : List (String × Document)) :
    ∃ body, (Document.object ms).print sp depth = openObject :: body := by
  rcases ms with _ | ⟨⟨name, d⟩, ms⟩
  · exact ⟨[closeObject], by rw [Document.print]⟩
  · exact ⟨_, by rw [Document.print]⟩

/-! ## Blanks -/

theorem skipBlanks_append {blanks : Bytes} (h : ∀ b ∈ blanks, isBlankByte b = true) (rest : Bytes) :
    skipBlanks (blanks ++ rest) = skipBlanks rest := by
  induction blanks with
  | nil => rfl
  | cons b blanks ih =>
    rw [List.cons_append, skipBlanks, if_pos (h b List.mem_cons_self)]
    exact ih fun c hc => h c (List.mem_cons_of_mem b hc)

theorem skipBlanks_cons {b : UInt8} (h : isBlankByte b = false) (rest : Bytes) :
    skipBlanks (b :: rest) = b :: rest := by
  rw [skipBlanks, if_neg (by rw [h]; simp)]

theorem Spacing.skipBlanks_lineBreak (sp : Spacing) (depth : Nat) {b : UInt8} {rest : Bytes}
    (h : isBlankByte b = false) : skipBlanks (sp.lineBreak depth ++ b :: rest) = b :: rest := by
  rw [skipBlanks_append (sp.lineBreak_blank depth), skipBlanks_cons h]

/-! ## Members -/

/-- Whether some bytes can follow a value without becoming part of it. -/
def EndsValue (rest : Bytes) : Prop :=
  ∀ b, rest.head? = some b → isBlankByte b = true ∨ b = commaByte ∨ b = closeArray ∨ b = closeObject

/-- What is printed for a member behind its name. -/
def afterName (sp : Spacing) (depth : Nat) (d : Document) : Bytes :=
  colonByte :: (sp.afterColon ++ d.print sp (depth + 1))

/-- A closing bracket ends a value, with or without a line break before it. -/
theorem endsValue_close (sp : Spacing) (depth : Nat) {close : UInt8}
    (h : close = closeArray ∨ close = closeObject) (rest : Bytes) :
    EndsValue (sp.lineBreak depth ++ [close] ++ rest) := by
  intro b hb
  rcases hbreak : sp.lineBreak depth with _ | ⟨first, more⟩
  · rw [hbreak] at hb
    cases hb
    exact Or.inr (Or.inr h)
  · have hblank := sp.lineBreak_blank depth first (by rw [hbreak]; exact List.mem_cons_self)
    rw [hbreak] at hb
    cases hb
    exact Or.inl hblank

theorem endsValue_comma (rest : Bytes) : EndsValue (commaByte :: rest) := by
  intro b hb
  cases hb
  exact Or.inr (Or.inl rfl)

theorem endsValue_moreMembers (sp : Spacing) (depth : Nat) (ms : List (String × Document))
    (rest : Bytes) : EndsValue (Document.moreMembers sp depth ms ++ rest) := by
  rcases ms with _ | ⟨m, ms⟩
  · rw [Document.moreMembers]
    exact endsValue_close sp depth (Or.inr rfl) rest
  · rw [Document.moreMembers]
    exact endsValue_comma _

theorem length_moreMembers (sp : Spacing) (depth : Nat) (ms : List (String × Document)) :
    ms.length ≤ (Document.moreMembers sp depth ms).length := by
  induction ms with
  | nil => exact Nat.zero_le _
  | cons m ms ih =>
    rw [Document.moreMembers, List.length_cons, List.length_cons, List.length_append]
    omega

variable {σ : Type} {step : σ → String → Bytes → Except Stop (σ × Bytes)}
  {next : σ → String × Document → σ} {state final : σ}

/-- Whether a step takes printed members one after the other, and leads from one state to another by
them. -/
inductive TakesAll (step : σ → String → Bytes → Except Stop (σ × Bytes)) (sp : Spacing)
    (depth : Nat) : σ → List (String × Document) → σ → Prop where
  | nil (state : σ) : TakesAll step sp depth state [] state
  | cons {state state' final : σ} {m : String × Document} {ms : List (String × Document)}
    (hfirst : ∀ rest, EndsValue rest →
      step state m.1 (afterName sp depth m.2 ++ rest) = .ok (state', rest))
    (hrest : TakesAll step sp depth state' ms final) : TakesAll step sp depth state (m :: ms) final

/-- Whether a step takes a printed member as `next` says, whatever follows it. -/
def Takes (step : σ → String → Bytes → Except Stop (σ × Bytes)) (next : σ → String × Document → σ)
    (sp : Spacing) (depth : Nat) (m : String × Document) : Prop :=
  ∀ state rest, EndsValue rest →
    step state m.1 (afterName sp depth m.2 ++ rest) = .ok (next state m, rest)

/-- Members that are taken in every state are taken one after the other. -/
theorem TakesAll.of_takes {sp : Spacing} {depth : Nat} {ms : List (String × Document)}
    (h : ∀ m ∈ ms, Takes step next sp depth m) (state : σ) :
    TakesAll step sp depth state ms (ms.foldl next state) := by
  induction ms generalizing state with
  | nil => exact .nil state
  | cons m ms ih =>
    exact .cons (h m List.mem_cons_self state)
      (ih (fun m' hm => h m' (List.mem_cons_of_mem m hm)) _)

/-- A member behind a comma: the line break, its name, and what is printed behind the name. -/
theorem moreMembers_cons (sp : Spacing) (depth : Nat) (m : String × Document)
    (ms : List (String × Document)) (rest : Bytes) :
    Document.moreMembers sp depth (m :: ms) ++ rest
      = commaByte :: (sp.lineBreak (depth + 1) ++ quoteByte :: ((Utf8.encode m.1).flatMap escapeByte
        ++ quoteByte :: (afterName sp depth m.2
          ++ (Document.moreMembers sp depth ms ++ rest)))) := by
  rw [Document.moreMembers]
  simp only [stringBytes, afterName, List.append_assoc, List.cons_append, List.nil_append]

theorem nextName_print (sp : Spacing) (depth : Nat) (rest : Bytes) :
    nextName (sp.lineBreak depth ++ quoteByte :: rest) = .ok rest := by
  rw [nextName, sp.skipBlanks_lineBreak depth (by decide)]
  rfl

/-- The loop takes one printed member after the other, and the brace behind the last one. -/
theorem memberLoop_print {sp : Spacing} {depth : Nat} {m : String × Document}
    {ms : List (String × Document)} (htakes : TakesAll step sp depth state (m :: ms) final)
    (bound : Nat) (hbound : ms.length < bound) (rest : Bytes) :
    memberLoop step bound state ((Utf8.encode m.1).flatMap escapeByte ++ quoteByte ::
        (afterName sp depth m.2 ++ (Document.moreMembers sp depth ms ++ rest)))
      = .ok (final, rest) := by
  -- the first member is given apart, since the loop begins behind the quotation mark of its name
  induction ms generalizing m bound state with
  | nil =>
    obtain ⟨bound, rfl⟩ := Nat.exists_eq_add_of_lt hbound
    obtain _ | ⟨hfirst, hrest⟩ := htakes
    cases hrest
    have htake := hfirst _ (endsValue_moreMembers sp depth [] rest)
    rw [memberLoop, string_encode]
    simp only [stopped, bind, Except.bind, htake]
    rw [Document.moreMembers, List.append_assoc, List.singleton_append,
      sp.skipBlanks_lineBreak depth (by decide)]
    rfl
  | cons m' ms ih =>
    obtain ⟨bound, rfl⟩ := Nat.exists_eq_add_of_lt hbound
    obtain _ | ⟨hfirst, hrest⟩ := htakes
    have htake := hfirst _ (endsValue_moreMembers sp depth (m' :: ms) rest)
    have hrec := ih hrest ((m' :: ms).length + bound) (by rw [List.length_cons]; omega)
    rw [memberLoop, string_encode]
    simp only [stopped, bind, Except.bind, htake]
    have hclose : ¬ commaByte = closeObject := by decide
    rw [moreMembers_cons, skipBlanks_cons (by decide)]
    simp only [nextName_print]
    rw [if_neg hclose, if_pos trivial]
    exact hrec

/-- A printed object is taken member by member, and nothing behind it is touched. -/
theorem members_print {sp : Spacing} {depth : Nat} {ms : List (String × Document)}
    (htakes : TakesAll step sp depth state ms final) (rest : Bytes) :
    ∃ body, (Document.object ms).print sp depth ++ rest = openObject :: body
      ∧ members step state body = .ok (final, rest) := by
  rcases ms with _ | ⟨m, ms⟩
  · cases htakes
    refine ⟨closeObject :: rest, by rw [Document.print]; rfl, ?_⟩
    rw [members, skipBlanks_cons (by decide)]
    rfl
  · refine ⟨sp.lineBreak (depth + 1) ++ quoteByte :: ((Utf8.encode m.1).flatMap escapeByte
        ++ quoteByte :: (afterName sp depth m.2 ++ (Document.moreMembers sp depth ms ++ rest))),
      ?_, ?_⟩
    · rw [Document.print]
      simp only [stringBytes, afterName, List.append_assoc, List.cons_append, List.nil_append]
    · rw [members, sp.skipBlanks_lineBreak (depth + 1) (by decide)]
      refine memberLoop_print htakes _ ?_ rest
      have hlen := length_moreMembers sp depth ms
      simp only [List.length_append, List.length_cons]
      omega

/-! ## Items -/

theorem endsValue_moreItems (sp : Spacing) (depth : Nat) (ds : List Document) (rest : Bytes) :
    EndsValue (Document.moreItems sp depth ds ++ rest) := by
  rcases ds with _ | ⟨d, ds⟩
  · rw [Document.moreItems]
    exact endsValue_close sp depth (Or.inl rfl) rest
  · rw [Document.moreItems]
    exact endsValue_comma _

theorem length_moreItems (sp : Spacing) (depth : Nat) (ds : List Document) :
    ds.length ≤ (Document.moreItems sp depth ds).length := by
  induction ds with
  | nil => exact Nat.zero_le _
  | cons d ds ih =>
    rw [Document.moreItems, List.length_cons, List.length_cons, List.length_append]
    omega

/-- Whether a step takes a printed item as `next` says, whatever follows it. The loop has to
recognise that an item begins. -/
structure TakesItem {σ : Type} (step : σ → Bytes → Except Fault (σ × Bytes))
    (next : σ → Document → σ) (sp : Spacing) (depth : Nat) (d : Document) : Prop where
  begins : ∃ b body, d.print sp (depth + 1) = b :: body ∧ isBlankByte b = false ∧ b ≠ closeArray
  takes : ∀ state rest, EndsValue rest →
    step state (d.print sp (depth + 1) ++ rest) = .ok (next state d, rest)

/-- The loop takes one printed item after the other, and the bracket behind the last one. -/
theorem itemLoop_print {step : σ → Bytes → Except Fault (σ × Bytes)} {next : σ → Document → σ}
    {sp : Spacing} {depth : Nat} {d : Document} {ds : List Document}
    (htakes : ∀ d' ∈ d :: ds, TakesItem step next sp depth d') (bound : Nat)
    (hbound : ds.length < bound) (state : σ) (rest : Bytes) :
    itemLoop step bound state (d.print sp (depth + 1) ++ (Document.moreItems sp depth ds ++ rest))
      = .ok ((d :: ds).foldl next state, rest) := by
  induction ds generalizing d bound state with
  | nil =>
    obtain ⟨bound, rfl⟩ := Nat.exists_eq_add_of_lt hbound
    have htake := (htakes d List.mem_cons_self).takes state _ (endsValue_moreItems sp depth [] rest)
    rw [itemLoop]
    simp only [bind, Except.bind, htake]
    rw [Document.moreItems, List.append_assoc, List.singleton_append,
      sp.skipBlanks_lineBreak depth (by decide)]
    rfl
  | cons d' ds ih =>
    obtain ⟨bound, rfl⟩ := Nat.exists_eq_add_of_lt hbound
    have htake :=
      (htakes d List.mem_cons_self).takes state _ (endsValue_moreItems sp depth (d' :: ds) rest)
    have hrec := ih (d := d') (fun d'' hd => htakes d'' (List.mem_cons_of_mem d hd))
      ((d' :: ds).length + bound) (by rw [List.length_cons]; omega) (next state d)
    obtain ⟨b, body, hbegin, hblank, hclose⟩ :=
      (htakes d' (List.mem_cons_of_mem d List.mem_cons_self)).begins
    rw [hbegin] at hrec
    have hnext : nextItem (sp.lineBreak (depth + 1) ++ (b :: body
        ++ (Document.moreItems sp depth ds ++ rest)))
        = .ok (b :: body ++ (Document.moreItems sp depth ds ++ rest)) := by
      rw [nextItem, List.cons_append, sp.skipBlanks_lineBreak (depth + 1) hblank]
      simp only [if_neg hclose]
    have hcomma : ¬ commaByte = closeArray := by decide
    rw [itemLoop]
    simp only [bind, Except.bind, htake]
    rw [Document.moreItems, hbegin, List.cons_append, List.append_assoc, List.append_assoc,
      skipBlanks_cons (by decide)]
    simp only [hnext]
    rw [if_neg hcomma, if_pos trivial]
    exact hrec

/-- A printed array is taken item by item, and nothing behind it is touched. -/
theorem items_print {step : σ → Bytes → Except Fault (σ × Bytes)} {next : σ → Document → σ}
    {sp : Spacing} {depth : Nat} {ds : List Document}
    (htakes : ∀ d ∈ ds, TakesItem step next sp depth d) (state : σ) (rest : Bytes) :
    ∃ body, (Document.array ds).print sp depth ++ rest = openArray :: body
      ∧ items step state body = .ok (ds.foldl next state, rest) := by
  rcases ds with _ | ⟨d, ds⟩
  · refine ⟨closeArray :: rest, by rw [Document.print]; rfl, ?_⟩
    rw [items, skipBlanks_cons (by decide)]
    rfl
  · refine ⟨sp.lineBreak (depth + 1) ++ (d.print sp (depth + 1)
      ++ (Document.moreItems sp depth ds ++ rest)), ?_, ?_⟩
    · rw [Document.print]
      simp only [List.append_assoc, List.cons_append]
    · have hloop := itemLoop_print htakes
      obtain ⟨b, body, hbegin, hblank, hclose⟩ := (htakes d List.mem_cons_self).begins
      simp only [hbegin, List.cons_append] at hloop ⊢
      rw [items, sp.skipBlanks_lineBreak (depth + 1) hblank]
      simp only [if_neg hclose]
      refine hloop _ ?_ state rest
      have hlen := length_moreItems sp depth ds
      simp only [List.length_append]
      omega

/-! ## Maps of texts -/

theorem colon_colonByte (rest : Bytes) : colon (colonByte :: rest) = .ok rest := by
  rw [colon, skipBlanks_cons (by decide)]
  rfl

/-- A text is read back from what is printed for it, whatever it stands for. -/
theorem stringAs_print (expected : String) (sp : Spacing) (depth : Nat) (s : String)
    (rest : Bytes) :
    stringAs expected (sp.afterColon ++ (Document.string s).print sp depth ++ rest)
      = .ok (s, rest) := by
  have hprint : (Document.string s).print sp depth ++ rest
      = quoteByte :: ((Utf8.encode s).flatMap escapeByte ++ quoteByte :: rest) := by
    rw [Document.print, stringBytes]
    simp only [List.cons_append, List.append_assoc, List.nil_append]
  rw [stringAs, List.append_assoc, hprint, skipBlanks_append sp.afterColon_blank,
    skipBlanks_cons (by decide)]
  exact string_encode s rest

theorem text_print (sp : Spacing) (depth : Nat) (s : String) (rest : Bytes) :
    text (sp.afterColon ++ (Document.string s).print sp depth ++ rest) = .ok (s, rest) :=
  stringAs_print "a string" sp depth s rest

/-- What a member adds to a map of texts. -/
def addText (filled : SortedMap String) (m : String × Document) : SortedMap String :=
  match m.2 with
  | .string s => filled.insert m.1 s
  | _ => filled

/-- A map of texts is read back from what is printed for it. -/
theorem textMap_print (sp : Spacing) (depth : Nat) (map : SortedMap String) (rest : Bytes) :
    textMap ((Document.object (map.entries.map fun e => (e.1, .string e.2))).print sp depth ++ rest)
      = .ok (map, rest) := by
  have htakes : ∀ m ∈ map.entries.map (fun e => (e.1, Document.string e.2)),
      Takes textMember addText sp depth m := by
    intro m hm filled rest _
    obtain ⟨e, -, rfl⟩ := List.mem_map.mp hm
    simp only [textMember, afterName, List.cons_append, colon_colonByte, stopped, bind, Except.bind,
      text_print]
    rfl
  obtain ⟨body, hbody, hmembers⟩ := members_print (TakesAll.of_takes htakes .empty) rest
  rw [List.foldl_map] at hmembers
  rw [hbody, textMap, skipBlanks_cons (by decide)]
  simp only [hmembers]
  rw [if_pos trivial]
  exact congrArg (fun m => Except.ok (m, rest)) map.foldl_insert_entries

end BootTrust.Json
