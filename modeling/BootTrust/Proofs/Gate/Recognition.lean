import BootTrust.Gate.Decision
import BootTrust.Proofs.Text.Trimming
import Mathlib.Data.List.Forall2
/-
Which texts are recognised as decisions. There is a word for each of the two decisions; its letters
may be small ones or capitals, in any mixture, and there may be blanks around it. Every such text is
recognised, and no other one (`ofText?_eq_some_iff`).

What a store holds is a text, so a store holds a decision if it can be read and has such a text
under the key of the decision (`Holds`).
-/

set_option autoImplicit false

namespace BootTrust

/-- A text is folded to a word of small letters if it has the same letters, small ones or
capitals. -/
theorem Text.map_toLower_eq_iff {letters word : List Char} (h : ∀ c ∈ word, c.toLower = c) :
    letters.map Char.toLower = word ↔
      List.Forall₂ (fun c small => c = small ∨ c = small.toUpper) letters word := by
  induction letters generalizing word with
  | nil => cases word <;> simp
  | cons c letters ih =>
    rcases word with _ | ⟨small, word⟩
    · simp
    · obtain ⟨hsmall, hword⟩ := List.forall_mem_cons.mp h
      rw [List.map_cons, List.cons.injEq, List.forall₂_cons, toLower_eq_iff hsmall, ih hword]

namespace Decision

/-- The word for a decision. -/
def word : Bool → List Char
  | true => ['t', 'r', 'u', 'e']
  | false => ['f', 'a', 'l', 's', 'e']

/-- That a text says a decision: it has the letters of the word for it, each of them small or a
capital, and nothing else but blanks in front of them and behind them. -/
def Says (text : String) (decision : Bool) : Prop :=
  ∃ front letters back, text.toList = front ++ letters ++ back
    ∧ (∀ c ∈ front, Text.isBlank c = true) ∧ (∀ c ∈ back, Text.isBlank c = true)
    ∧ List.Forall₂ (fun c small => c = small ∨ c = small.toUpper) letters (word decision)

theorem toLower_of_mem_word {decision : Bool} : ∀ c ∈ word decision, c.toLower = c := by
  refine List.forall_iff_forall_mem.mp ?_
  cases decision with
  | true => decide
  | false => decide

/-- A blank is no letter of a word, so a word is not shortened by trimming. -/
theorem not_isBlank_of_map_eq {decision : Bool} {letters : List Char}
    (h : letters.map Char.toLower = word decision) : ∀ c ∈ letters, Text.isBlank c = false := by
  have hletter : ∀ small ∈ word decision,
      Text.isBlank small = false ∧ Text.isBlank small.toUpper = false := by
    refine List.forall_iff_forall_mem.mp ?_
    cases decision with
    | true => decide
    | false => decide
  intro c hc
  have hmem : c.toLower ∈ word decision := h ▸ List.mem_map_of_mem hc
  obtain ⟨hsmall, hcapital⟩ := hletter c.toLower hmem
  rcases (Text.toLower_eq_iff (toLower_of_mem_word _ hmem)).mp rfl with heq | heq
  · rwa [heq]
  · rwa [heq]

/-- What a text says is what is left of it when it is trimmed and folded. -/
theorem says_iff {text : String} {decision : Bool} :
    Says text decision ↔ (Text.trimChars text.toList).map Char.toLower = word decision := by
  constructor
  · rintro ⟨front, letters, back, htext, hfront, hback, hletters⟩
    have hword := (Text.map_toLower_eq_iff toLower_of_mem_word).mpr hletters
    have hno := not_isBlank_of_map_eq hword
    rw [htext, Text.trimChars_append hfront hback (fun c hc => hno c (List.mem_of_head? hc))
      (fun c hc => hno c (List.mem_of_getLast? hc))]
    exact hword
  · intro h
    obtain ⟨⟨front, back, htext, hfront, hback⟩, -⟩ := Text.trimChars_eq_iff.mp (Eq.refl _)
    exact ⟨front, _, back, htext, hfront, hback, (Text.map_toLower_eq_iff toLower_of_mem_word).mp h⟩

/-- A text is recognised as the decision that it says, and only then. -/
theorem ofText?_eq_some_iff {text : String} {decision : Bool} :
    ofText? text = some decision ↔ Says text decision := by
  have hword : ∀ (s : String) (d : Bool), s.toList = word d →
      (Text.asciiLower (Text.trim text) = s ↔ Says text d) := by
    intro s d hs
    rw [says_iff, ← hs, ← String.toList_inj, Text.toList_asciiLower, Text.toList_trim]
  have htrue := hword "true" true rfl
  have hfalse := hword "false" false rfl
  rw [ofText?]
  by_cases hyes : Text.asciiLower (Text.trim text) = "true"
  · have hno : ¬ Text.asciiLower (Text.trim text) = "false" := by
      rw [hyes]
      decide
    rw [if_pos hyes]
    cases decision with
    | true => exact iff_of_true rfl (htrue.mp hyes)
    | false => exact iff_of_false (by decide) (mt hfalse.mpr hno)
  · rw [if_neg hyes]
    cases decision with
    | true =>
      refine iff_of_false (fun h => ?_) (mt htrue.mpr hyes)
      split at h
      · cases h
      · cases h
    | false =>
      rw [← hfalse]
      simp

/-- A text that says neither decision is not recognised. -/
theorem ofText?_eq_none_iff {text : String} :
    ofText? text = none ↔ ∀ decision, ¬ Says text decision := by
  rw [Option.eq_none_iff_forall_ne_some]
  exact forall_congr' fun decision => not_congr ofText?_eq_some_iff

instance (text : String) (decision : Bool) : Decidable (Says text decision) :=
  decidable_of_iff _ ofText?_eq_some_iff

example :
    Says " TRUE\n" true ∧ Says "fAlse" false ∧ ¬ Says "true." true ∧ ¬ Says "" false := by decide

/-! ## The decision in a store -/

variable {σ : Type}

/-- That a store can be read and holds a decision. -/
def Holds (store : StateStore σ) (state : σ) (decision : Bool) : Prop :=
  ∃ text, store.get state "beyond_corp" = .ok (some text) ∧ Says text decision

/-- The decision that a store holds, if it can be read and holds one that is recognised. -/
def stored? (store : StateStore σ) (state : σ) : Option Bool :=
  match store.get state key with
  | .ok (some text) => ofText? text
  | _ => none

theorem stored?_eq_some_iff {store : StateStore σ} {state : σ} {decision : Bool} :
    stored? store state = some decision ↔ Holds store state decision := by
  have hget : ∀ text, ofText? text = some decision ↔
      ∃ held, (Except.ok (some text) : Except StateError _) = .ok (some held)
        ∧ Says held decision := by
    intro text
    simp [ofText?_eq_some_iff]
  rw [stored?, Holds, show "beyond_corp" = key from rfl]
  rcases store.get state key with e | _ | text
  · simp
  · simp
  · exact hget text

end Decision

end BootTrust
