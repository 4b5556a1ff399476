import BootTrust.Proofs.Json.Records
import BootTrust.Proofs.Spelling.Typed
import Mathlib.Data.List.Forall2
/-
The members of an object, one after the other and by their names. What a reader does with an
object is a fold over its members (`members_eq_ok_iff`), provided that each step is decided by its
member alone and stops behind it. Blanks, escapes and the way to the next member are the loop's
business and leave no trace.

What a name has is the list of its values (`Spelling.valuesOf`), and where a name may be written
once only, such a list comes to nothing, to one value, or is refused (`once?`). The order in which
members with different names are written cannot be told from these lists.
-/

set_option autoImplicit false

namespace BootTrust.Json

/-! ## Members one after the other -/

section Loops

variable {σ : Type} {step : σ → String → Bytes → Except Stop (σ × Bytes)}
  {effect? : σ → String → Spelling → Option σ} {state final : σ} {bound : Nat} {rest left : Bytes}

/-- Whether a step of a reader does to its state what a member does, and refuses the member if that
is nothing. It stops exactly behind the value. -/
def StepsAs (step : σ → String → Bytes → Except Stop (σ × Bytes))
    (effect? : σ → String → Spelling → Option σ) : Prop :=
  ∀ (state : σ) (name : String) (m : Member Spelling) {rest left : Bytes} {state' : σ},
    EndsValue rest →
      (step state name (m.bytesBehind rest) = .ok (state', left)
        ↔ effect? state name m.value.inner = some state' ∧ left = rest)

/-- What becomes of a state by a member. The name has to be a text. -/
def Member.change? (effect? : σ → String → Spelling → Option σ) (state : σ)
    (m : Member Spelling) : Option σ :=
  m.name.inner.text?.bind fun name => effect? state name m.value.inner

/-- A round of the loop is a member and what comes behind it. -/
theorem memberLoop_succ_iff (h : StepsAs step effect?) (m : Member Spelling)
    (hends : EndsValue rest) :
    memberLoop step (bound + 1) state
      (m.name.inner.flatMap Piece.bytes ++ quoteByte :: m.bytesBehind rest) = .ok (final, left)
      ↔ ∃ state', Member.change? effect? state m = some state'
        ∧ loopBehind step bound state' rest = .ok (final, left) := by
  rw [memberLoop_succ, Steps.bind_eq_ok_iff]
  constructor
  · rintro ⟨⟨name, behind⟩, hname, hstep⟩
    obtain ⟨rfl, htext⟩ := string_quoted (stopped_eq_ok_iff.mp hname)
    obtain ⟨⟨state', behind⟩, hstep, hbehind⟩ := Steps.bind_eq_ok_iff.mp hstep
    obtain ⟨heffect, rfl⟩ := (h state name m hends).mp hstep
    exact ⟨state', by rw [Member.change?, htext, Option.bind_some, heffect], hbehind⟩
  · rintro ⟨state', hchange, hbehind⟩
    obtain ⟨name, htext, heffect⟩ := Option.bind_eq_some_iff.mp hchange
    refine ⟨_, stopped_eq_ok_iff.mpr (string_of_text? htext _), ?_⟩
    exact Steps.bind_eq_ok_iff.mpr ⟨_, (h state name m hends).mpr ⟨heffect, rfl⟩, hbehind⟩

/-- The loop is a fold over the members, if it has a round for each of them. -/
theorem memberLoop_eq_ok_iff (h : StepsAs step effect?) {m : Member Spelling}
    {more : List (Member Spelling)} (hbound : more.length < bound) :
    memberLoop step bound state (m.name.inner.flatMap Piece.bytes ++ quoteByte ::
        m.bytesBehind (m.value.after.bytes ++ (Spelling.moreMembers more ++ rest)))
        = .ok (final, left)
      ↔ (m :: more).foldlM (Member.change? effect?) state = some final ∧ left = rest := by
  induction more generalizing m state bound with
  | nil =>
    obtain ⟨bound, rfl⟩ : ∃ b, bound = b + 1 := ⟨bound - 1, by omega⟩
    rw [memberLoop_succ_iff h m (m.value.after.endsValue (Spelling.endsValue_moreMembers [] rest)),
      List.foldlM_cons]
    simp only [loopBehind_last, List.foldlM_nil]
    constructor
    · rintro ⟨state', hchange, hlast⟩
      cases hlast
      exact ⟨by rw [hchange]; rfl, rfl⟩
    · rintro ⟨hfold, rfl⟩
      obtain ⟨state', hchange, hlast⟩ := Option.bind_eq_some_iff.mp hfold
      cases hlast
      exact ⟨_, hchange, rfl⟩
  | cons next more ih =>
    obtain ⟨bound, rfl⟩ : ∃ b, bound = b + 1 := ⟨bound - 1, by omega⟩
    have hmore : more.length < bound := by
      rw [List.length_cons] at hbound
      omega
    rw [memberLoop_succ_iff h m (m.value.after.endsValue
      (Spelling.endsValue_moreMembers (next :: more) rest)), List.foldlM_cons]
    simp only [loopBehind_next, ih hmore]
    constructor
    · rintro ⟨state', hchange, hfold, rfl⟩
      exact ⟨by rw [hchange]; exact hfold, rfl⟩
    · rintro ⟨hfold, rfl⟩
      obtain ⟨state', hchange, hfold⟩ := Option.bind_eq_some_iff.mp hfold
      exact ⟨state', hchange, hfold, rfl⟩

theorem Spelling.length_moreMembers (more : List (Member Spelling)) :
    more.length < (moreMembers more).length := by
  induction more with
  | nil => exact Nat.zero_lt_one
  | cons m more ih =>
    have happend := moreMembers_append m more []
    rw [List.append_nil, List.append_nil] at happend
    rw [happend]
    simp only [List.length_cons, List.length_append, Member.bytesFrom, Member.bytesBehind]
    omega

/-- An object is read as the fold over its members, from behind its opening brace. -/
theorem members_eq_ok_iff (h : StepsAs step effect?) {s : Spelling} {ms : List (Member Spelling)}
    (hms : s.members? = some ms) {body : Bytes} (hbody : s.bytes ++ rest = openObject :: body) :
    members step state body = .ok (final, left)
      ↔ ms.foldlM (Member.change? effect?) state = some final ∧ left = rest := by
  cases s with
  | emptyObject inside =>
    cases hms
    rw [Spelling.emptyObject_append] at hbody
    obtain rfl := (List.cons.inj hbody).2
    rw [members, skipBlanks_append inside.areBlank, skipBlanks_cons (by decide)]
    simp only [if_true, List.foldlM_nil]
    constructor
    · rintro ⟨⟩
      exact ⟨rfl, rfl⟩
    · rintro ⟨⟨⟩, rfl⟩
      rfl
  | object first more =>
    cases hms
    rw [Spelling.object_append] at hbody
    obtain rfl := (List.cons.inj hbody).2
    have hquote : ¬ quoteByte = closeObject := by decide
    rw [members, skipBlanks_append first.name.before.areBlank, Member.bytesFrom,
      skipBlanks_cons (by decide)]
    simp only [if_neg hquote, if_true]
    refine memberLoop_eq_ok_iff h ?_
    have hlength := Spelling.length_moreMembers more
    simp only [Member.bytesBehind, List.length_append, List.length_cons]
    omega
  | _ => cases hms

end Loops

/-! ## Values by their names -/

namespace Spelling

theorem valuesOf_cons (m : Member Spelling) (ms : List (Member Spelling)) (name : String) :
    valuesOf (m :: ms) name
      = if m.name.inner.text? = some name then m.value.inner :: valuesOf ms name
        else valuesOf ms name := by
  rw [valuesOf, List.filter_cons]
  by_cases h : m.name.inner.text? = some name
  · simp only [h, decide_true, if_true, List.map_cons]
    rfl
  · simp only [h, decide_false, Bool.false_eq_true, if_false]
    rfl

end Spelling

/-! The same for members in memory, as which they are printed. -/

namespace Document

/-- The values of all members with a name, in their order. -/
def valuesOf (members : List (String × Document)) (name : String) : List Document :=
  (members.filter fun m => m.1 = name).map Prod.snd

theorem valuesOf_cons (m : String × Document) (ms : List (String × Document)) (name : String) :
    valuesOf (m :: ms) name = if m.1 = name then m.2 :: valuesOf ms name else valuesOf ms name := by
  rw [valuesOf, List.filter_cons]
  by_cases h : m.1 = name
  · simp only [h, decide_true, if_true, List.map_cons]
    rfl
  · simp only [h, decide_false, Bool.false_eq_true, if_false]
    rfl

variable {sp : Spacing} {depth : Nat} {ms : List (String × Document)}
  {members : List (Member Spelling)}

/-- What holds of members and of what is printed for them holds of the values of each name. -/
theorem forall₂_valuesOf_of {R : Document → Spelling → Prop}
    (hR : ∀ {m written}, IsPrintedAs sp depth m written → R m.2 written.value.inner)
    (h : List.Forall₂ (IsPrintedAs sp depth) ms members) (name : String) :
    List.Forall₂ R (valuesOf ms name) (Spelling.valuesOf members name) := by
  induction h with
  | nil => exact .nil
  | @cons m written ms members hfirst _ ih =>
    rw [valuesOf_cons, Spelling.valuesOf_cons, hfirst.name]
    by_cases hname : m.1 = name
    · rw [if_pos hname, if_pos (congrArg some hname)]
      exact .cons (hR hfirst) ih
    · rw [if_neg hname, if_neg (by simpa using hname)]
      exact ih

/-- Members are printed with the values that they have. -/
theorem forall₂_valuesOf (h : List.Forall₂ (IsPrintedAs sp depth) ms members) (name : String) :
    List.Forall₂ IsWrittenAs (valuesOf ms name) (Spelling.valuesOf members name) :=
  forall₂_valuesOf_of IsPrintedAs.isWrittenAs h name

/-- An object that is printed as a whole is spelled, member by member. -/
theorem exists_padded_of_object (sp : Spacing) (ms : List (String × Document)) :
    ∃ (file : Padded Spelling) (members : List (Member Spelling)),
      file.bytes = (Document.object ms).print sp 0
        ∧ file.inner.members? = some members ∧ List.Forall₂ (IsPrintedAs sp 1) ms members := by
  obtain ⟨s, members, hbytes, hmembers, hprinted, -⟩ := exists_members sp 0 ms
  exact ⟨⟨.none, s, .none⟩, members, (List.append_nil _).trans hbytes, hmembers, hprinted⟩

theorem isSome_of_isPrintedAs (h : List.Forall₂ (IsPrintedAs sp depth) ms members) :
    ∀ m ∈ members, m.name.inner.text?.isSome = true := by
  induction h with
  | nil => simp
  | cons hfirst _ ih => exact List.forall_mem_cons.mpr ⟨by rw [hfirst.name]; rfl, ih⟩

end Document

section Once

variable {κ κ' β γ : Type} {accept? : κ → Option β}

/-- What the values of a name come to if it may be written once: nothing if there is none, and what
the one is accepted as. Two are refused, and so is one that is not accepted. -/
def once? (accept? : κ → Option β) : List κ → Option (Option β)
  | [] => some none
  | [value] => (accept? value).map some
  | _ :: _ :: _ => none

theorem once?_cons_eq_some {value : κ} {values : List κ} {b : Option β}
    (h : once? accept? (value :: values) = some b) :
    values = [] ∧ ∃ c, accept? value = some c ∧ b = some c := by
  rcases values with _ | ⟨other, values⟩
  · obtain ⟨c, hc, rfl⟩ := Option.map_eq_some_iff.mp h
    exact ⟨rfl, c, hc, rfl⟩
  · cases h

/-- Values that are accepted come to something if and only if there are not two. -/
theorem exists_once?_iff {values : List κ}
    (haccept : ∀ value ∈ values, (accept? value).isSome = true) :
    (∃ b, once? accept? values = some b) ↔ values.length ≤ 1 := by
  rcases values with _ | ⟨value, _ | ⟨other, values⟩⟩
  · simp [once?]
  · obtain ⟨b, hb⟩ := Option.isSome_iff_exists.mp (haccept value List.mem_cons_self)
    simp [once?, hb]
  · simp [once?]

theorem exists_once?_some_iff {values : List κ}
    (haccept : ∀ value ∈ values, (accept? value).isSome = true) :
    (∃ b, once? accept? values = some (some b)) ↔ values.length = 1 := by
  rcases values with _ | ⟨value, _ | ⟨other, values⟩⟩
  · simp [once?]
  · obtain ⟨b, hb⟩ := Option.isSome_iff_exists.mp (haccept value List.mem_cons_self)
    simp [once?, hb]
  · simp [once?]

theorem once?_eq_some_some_iff {values : List κ} {b : β} :
    once? accept? values = some (some b) ↔ ∃ value, values = [value] ∧ accept? value = some b := by
  rcases values with _ | ⟨value, _ | ⟨other, values⟩⟩
  · simp [once?]
  · simp [once?]
  · simp [once?]

/-- One of the values that is not accepted is enough for a refusal. -/
theorem once?_eq_none {values : List κ} {value : κ} (hmem : value ∈ values)
    (hnone : accept? value = none) : once? accept? values = none := by
  rcases values with _ | ⟨first, _ | ⟨other, values⟩⟩
  · cases hmem
  · rw [List.mem_singleton.mp hmem] at hnone
    rw [once?, hnone, Option.map_none]
  · rfl

theorem once?_map (f : β → γ) (values : List κ) :
    once? (fun value => (accept? value).map f) values
      = (once? accept? values).map (Option.map f) := by
  rcases values with _ | ⟨value, _ | ⟨other, values⟩⟩
  · rfl
  · rw [once?, once?]
    rcases accept? value with _ | b
    · rfl
    · rfl
  · rfl

/-- The order of values does not matter: if there are several, they are refused in any order. -/
theorem once?_perm {values values' : List κ} (h : values.Perm values') :
    once? accept? values = once? accept? values' := by
  have hlength := h.length_eq
  rcases values with _ | ⟨value, _ | ⟨other, values⟩⟩
  · rw [List.nil_perm.mp h]
  · rw [List.singleton_perm.mp h]
  · rcases values' with _ | ⟨value', _ | ⟨other', values'⟩⟩
    · cases hlength
    · cases hlength
    · rfl

/-- Values of two kinds that are accepted as the same come to the same. -/
theorem once?_congr {accept?' : κ' → Option β} {values : List κ} {values' : List κ'}
    (h : List.Forall₂ (fun value value' => accept? value = accept?' value') values values') :
    once? accept? values = once? accept?' values' := by
  rcases h with _ | ⟨hfirst, _ | ⟨_, _⟩⟩
  · rfl
  · rw [once?, once?, hfirst]
  · rfl

end Once

end BootTrust.Json
