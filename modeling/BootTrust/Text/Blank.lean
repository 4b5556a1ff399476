/-
Sets of characters given as a table of intervals of code points, and the first of them.

Blank characters, by the Unicode property White_Space, and the removal of blanks from both ends of a
text. The set is wider than the blanks of ASCII: a no-break space or an ideographic space counts, a
zero-width space does not.
-/

set_option autoImplicit false

namespace BootTrust.Text

/-- Whether the number of `c` lies in one of the closed intervals `ranges`. -/
def inRanges (ranges : List (Nat × Nat)) (c : Char) : Bool :=
  ranges.any fun (low, high) => low ≤ c.toNat && c.toNat ≤ high

/-! ## Blanks -/

/-- The code points with White_Space. -/
def blankRanges : List (Nat × Nat) := [
  (0x9, 0xD), (0x20, 0x20), (0x85, 0x85), (0xA0, 0xA0), (0x1680, 0x1680), (0x2000, 0x200A),
  (0x2028, 0x2029), (0x202F, 0x202F), (0x205F, 0x205F), (0x3000, 0x3000)
]

def isBlank (c : Char) : Bool :=
  inRanges blankRanges c

/-- A list without its blanks at both ends. -/
def trimChars (cs : List Char) : List Char :=
  ((cs.dropWhile isBlank).reverse.dropWhile isBlank).reverse

/-- A text without its blanks at both ends. -/
def trim (s : String) : String :=
  String.ofList (trimChars s.toList)

/-- Whether a text has nothing but blanks. -/
def isAllBlank (s : String) : Bool :=
  s.toList.all isBlank

/-! ## What trimming leaves -/

@[simp] theorem toList_trim (s : String) : (trim s).toList = trimChars s.toList := by
  simp [trim]

/-- What is left does not begin with a blank. -/
theorem head?_trimChars_not_blank (cs : List Char) :
    ∀ c, (trimChars cs).head? = some c → isBlank c = false := by
  intro c h
  have hsub : ∀ l : List Char, l.reverse.dropWhile isBlank <:+ l.reverse := fun l =>
    List.dropWhile_suffix _
  obtain ⟨pre, hpre⟩ := hsub (cs.dropWhile isBlank)
  have hl : cs.dropWhile isBlank = trimChars cs ++ pre.reverse := by
    rw [← List.reverse_reverse (cs.dropWhile isBlank), ← hpre]
    simp [trimChars]
  have hhead : (cs.dropWhile isBlank).head? = some c := by
    rw [hl]
    cases hcs : trimChars cs with
    | nil => simp [hcs] at h
    | cons a as => simpa [hcs] using h
  have := List.head?_dropWhile_not isBlank cs
  rw [hhead] at this
  simpa using this

/-- What is left does not end with a blank. -/
theorem getLast?_trimChars_not_blank (cs : List Char) :
    ∀ c, (trimChars cs).getLast? = some c → isBlank c = false := by
  intro c h
  have := List.head?_dropWhile_not isBlank (cs.dropWhile isBlank).reverse
  rw [trimChars, List.getLast?_reverse] at h
  rw [h] at this
  simpa using this

end BootTrust.Text
