import BootTrust.Text.Blank
import Mathlib.Data.List.DropRight
import Mathlib.Data.List.Infix
/-
What trimming makes of a text. It takes blanks from both ends and nothing else, and it goes on until
there is none: so a text is what is left of another one if and only if it begins and ends with no
blank, and the other one is this text with blanks around it (`trimChars_eq_iff`).
-/

set_option autoImplicit false

namespace BootTrust.Text

theorem ne_of_isBlank {c blank : Char} (hc : isBlank c = false) (hblank : isBlank blank = true) :
    c ≠ blank := by
  rintro rfl
  rw [hc] at hblank
  cases hblank

/-- Trimming takes a piece out of the middle. -/
theorem trimChars_isInfix (cs : List Char) : trimChars cs <:+: cs :=
  (List.rdropWhile_prefix isBlank _).isInfix.trans (List.dropWhile_suffix isBlank).isInfix

/-- What satisfies the condition at the end is dropped, and nothing before it. -/
theorem rdropWhile_append {p : Char → Bool} {kept dropped : List Char}
    (hall : ∀ c ∈ dropped, p c = true) (hkept : ∀ c, kept.getLast? = some c → p c = false) :
    (kept ++ dropped).rdropWhile p = kept := by
  have hall' : ∀ c ∈ dropped.reverse, p c = true := fun c hc => hall c (List.mem_reverse.mp hc)
  rw [List.rdropWhile, List.reverse_append, List.dropWhile_append_of_pos hall']
  show kept.rdropWhile p = kept
  rw [List.rdropWhile_eq_self_iff]
  intro hne
  rw [hkept (kept.getLast hne) (List.getLast?_eq_some_getLast hne)]
  exact Bool.false_ne_true

/-- Nothing is left of a text exactly if it has nothing but blanks. -/
theorem trimChars_eq_nil_iff {cs : List Char} : trimChars cs = [] ↔ ∀ c ∈ cs, isBlank c = true := by
  show (cs.dropWhile isBlank).rdropWhile isBlank = [] ↔ _
  constructor
  · intro hnil
    have hall := List.rdropWhile_eq_nil_iff.mp hnil
    rcases hfront : cs.dropWhile isBlank with _ | ⟨first, more⟩
    · exact List.dropWhile_eq_nil_iff.mp hfront
    · have hfirst : isBlank first = false := by
        simpa [hfront] using List.head?_dropWhile_not isBlank cs
      rw [hfront] at hall
      exact absurd (hall first List.mem_cons_self) (by rw [hfirst]; exact Bool.false_ne_true)
  · intro hall
    rw [List.dropWhile_eq_nil_iff.mpr hall]
    rfl

/-- Blanks around a text that begins and ends with none are all that is taken away. -/
theorem trimChars_append {front word back : List Char} (hfront : ∀ c ∈ front, isBlank c = true)
    (hback : ∀ c ∈ back, isBlank c = true) (hhead : ∀ c, word.head? = some c → isBlank c = false)
    (hlast : ∀ c, word.getLast? = some c → isBlank c = false) :
    trimChars (front ++ word ++ back) = word := by
  rcases word with _ | ⟨first, more⟩
  · rw [List.append_nil, trimChars_eq_nil_iff]
    exact fun c hc => (List.mem_append.mp hc).elim (hfront c) (hback c)
  · have hdrop : (front ++ (first :: more) ++ back).dropWhile isBlank = first :: more ++ back := by
      have hfirst : ¬ isBlank first = true := by simp [hhead first rfl]
      rw [List.append_assoc, List.dropWhile_append_of_pos hfront, List.cons_append,
        List.dropWhile_cons_of_neg hfirst]
    show ((front ++ (first :: more) ++ back).dropWhile isBlank).rdropWhile isBlank = _
    rw [hdrop, rdropWhile_append hback hlast]

/-- There is nothing to trim if there is no blank at either end. -/
theorem trimChars_eq_self {cs : List Char} (hhead : ∀ c, cs.head? = some c → isBlank c = false)
    (hlast : ∀ c, cs.getLast? = some c → isBlank c = false) : trimChars cs = cs := by
  have hnone : ∀ c ∈ ([] : List Char), isBlank c = true := List.forall_mem_nil _
  simpa using trimChars_append hnone hnone hhead hlast

theorem trimChars_eq_iff {cs word : List Char} :
    trimChars cs = word ↔
      (∃ front back, cs = front ++ word ++ back ∧ (∀ c ∈ front, isBlank c = true)
        ∧ ∀ c ∈ back, isBlank c = true)
      ∧ (∀ c, word.head? = some c → isBlank c = false)
      ∧ ∀ c, word.getLast? = some c → isBlank c = false := by
  constructor
  · rintro rfl
    refine ⟨⟨cs.takeWhile isBlank, (cs.dropWhile isBlank).rtakeWhile isBlank, ?_, ?_, ?_⟩,
      head?_trimChars_not_blank cs, getLast?_trimChars_not_blank cs⟩
    · show cs = _ ++ (cs.dropWhile isBlank).rdropWhile isBlank ++ _
      rw [List.append_assoc, List.rdropWhile_append_rtakeWhile, List.takeWhile_append_dropWhile]
    · exact fun c hc => List.mem_takeWhile_imp hc
    · exact fun c hc => List.mem_rtakeWhile_imp hc
  · rintro ⟨⟨front, back, rfl, hfront, hback⟩, hhead, hlast⟩
    exact trimChars_append hfront hback hhead hlast

/-- Nothing is left of a text if and only if it has nothing but blanks. -/
theorem isEmpty_trim (s : String) : (trim s).isEmpty = isAllBlank s := by
  rw [Bool.eq_iff_iff, String.isEmpty_iff, isAllBlank, List.all_eq_true, ← trimChars_eq_nil_iff,
    trim, ← String.ofList_nil, String.ofList_inj]

end BootTrust.Text
