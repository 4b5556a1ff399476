/-
Letter case, for the letters of ASCII only: `A` to `Z` are folded, every other character stays, also
a letter such as `É` that has a small form.
-/

set_option autoImplicit false

namespace BootTrust.Text

/-- A text with `A` to `Z` written small. -/
def asciiLower (s : String) : String :=
  String.ofList (s.toList.map Char.toLower)

@[simp] theorem toList_asciiLower (s : String) :
    (asciiLower s).toList = s.toList.map Char.toLower := by
  simp [asciiLower]

/-- Capitals are the numbers from 65 to 90, and the small letters lie 32 above them. -/
theorem toNat_toLower (c : Char) :
    c.toLower.toNat = if 65 ≤ c.toNat ∧ c.toNat ≤ 90 then c.toNat + 32 else c.toNat := by
  delta Char.toLower
  split
  · next h =>
    simp only [UInt32.le_iff_toNat_le, ge_iff_le] at h
    have hcapital : 65 ≤ c.toNat ∧ c.toNat ≤ 90 := h
    have hhigh : c.val.toNat ≤ 90 := h.2
    rw [if_pos hcapital]
    show (c.val + 32).toNat = c.val.toNat + 32
    rw [UInt32.toNat_add, Nat.mod_eq_of_lt (by simp; omega)]
    rfl
  · next h =>
    simp only [UInt32.le_iff_toNat_le, ge_iff_le] at h
    have hother : ¬ (65 ≤ c.toNat ∧ c.toNat ≤ 90) := h
    rw [if_neg hother]

theorem toNat_toUpper (c : Char) :
    c.toUpper.toNat = if 97 ≤ c.toNat ∧ c.toNat ≤ 122 then c.toNat - 32 else c.toNat := by
  delta Char.toUpper
  split
  · next h =>
    simp only [UInt32.le_iff_toNat_le] at h
    have hsmall : 97 ≤ c.toNat ∧ c.toNat ≤ 122 := h
    have hlow : 97 ≤ c.val.toNat := h.1
    have hhigh : c.val.toNat ≤ 122 := h.2
    rw [if_pos hsmall]
    show (c.val + _).toNat = c.val.toNat - 32
    simp
    omega
  · next h =>
    simp only [UInt32.le_iff_toNat_le] at h
    have hother : ¬ (97 ≤ c.toNat ∧ c.toNat ≤ 122) := h
    rw [if_neg hother]

/-- A folded letter is no capital, so folding it again changes nothing. -/
theorem toLower_toLower (c : Char) : c.toLower.toLower = c.toLower := by
  rw [← Char.toNat_inj, toNat_toLower, toNat_toLower]
  grind

/-- Two characters are folded to a small letter: the letter and its capital. -/
theorem toLower_eq_iff {c small : Char} (h : small.toLower = small) :
    c.toLower = small ↔ c = small ∨ c = small.toUpper := by
  rw [← Char.toNat_inj, toNat_toLower] at h
  rw [← Char.toNat_inj, ← Char.toNat_inj, ← Char.toNat_inj, toNat_toLower, toNat_toUpper]
  grind

/-- Folding a second time changes nothing. -/
theorem asciiLower_asciiLower (s : String) : asciiLower (asciiLower s) = asciiLower s := by
  have h : Char.toLower ∘ Char.toLower = Char.toLower := funext toLower_toLower
  simp [asciiLower, h]

end BootTrust.Text
