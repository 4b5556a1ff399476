/-
Cutting a text at separators. `parts` gives what stands between them, empty parts included, so n
separators make n + 1 parts, and no part holds a separator.
-/

set_option autoImplicit false

namespace BootTrust.Text

/-- What stands before, between and behind the separators of a text. -/
def parts (isSeparator : Char → Bool) : List Char → List (List Char)
  | [] => [[]]
  | c :: cs =>
    if isSeparator c then [] :: parts isSeparator cs
    else
      match parts isSeparator cs with
      | [] => [[c]]
      | first :: more => (c :: first) :: more

variable {isSeparator : Char → Bool}

theorem parts_ne_nil (cs : List Char) : parts isSeparator cs ≠ [] := by
  cases cs with
  | nil => simp [parts]
  | cons c cs =>
    rw [parts]
    split
    · simp
    · split <;> simp

/-- No part holds a separator. -/
theorem parts_no_separator (cs : List Char) :
    ∀ part ∈ parts isSeparator cs, ∀ c ∈ part, isSeparator c = false := by
  induction cs with
  | nil => simp [parts]
  | cons c cs ih =>
    intro part hpart
    rw [parts] at hpart
    split at hpart
    · rcases List.mem_cons.mp hpart with rfl | hpart
      · simp
      · exact ih part hpart
    · next hc =>
      split at hpart
      · next h => exact absurd h (parts_ne_nil cs)
      · next first more h =>
        rcases List.mem_cons.mp hpart with rfl | hpart
        · intro d hd
          rcases List.mem_cons.mp hd with rfl | hd
          · simpa using hc
          · exact ih first (by rw [h]; exact List.mem_cons_self) d hd
        · exact ih part (by rw [h]; exact List.mem_cons_of_mem _ hpart)

/-- A text without separators is one part. -/
theorem parts_of_no_separator {cs : List Char} (h : ∀ c ∈ cs, isSeparator c = false) :
    parts isSeparator cs = [cs] := by
  induction cs with
  | nil => rfl
  | cons c cs ih =>
    rw [parts, h c List.mem_cons_self, ih fun d hd => h d (List.mem_cons_of_mem _ hd)]
    simp

/-- A separator ends the part before it and begins the part behind it. -/
theorem parts_append_separator {c : Char} (hc : isSeparator c = true) (before behind : List Char) :
    parts isSeparator (before ++ c :: behind)
      = parts isSeparator before ++ parts isSeparator behind := by
  induction before with
  | nil => simp [parts, hc]
  | cons b before ih =>
    rw [List.cons_append, parts, parts, ih]
    split
    · rfl
    · cases h : parts isSeparator before with
      | nil => exact absurd h (parts_ne_nil before)
      | cons first more => rfl

/-- Put together with the only separator there is, the parts of a text are the text. -/
theorem intercalate_parts {c : Char} (hc : ∀ d, isSeparator d = true ↔ d = c) (cs : List Char) :
    List.intercalate [c] (parts isSeparator cs) = cs := by
  induction cs with
  | nil => simp [parts]
  | cons d cs ih =>
    rcases h : parts isSeparator cs with _ | ⟨first, more⟩
    · exact absurd h (parts_ne_nil cs)
    rw [h] at ih
    simp only [parts, h]
    split
    · next hd =>
      obtain rfl := (hc d).mp hd
      rw [List.intercalate_cons_cons, ih]
      rfl
    · rw [List.intercalate_cons_cons_left, ih]

/-- Parts without separators are found again in the text that is put together from them. -/
theorem parts_intercalate {c : Char} (hc : isSeparator c = true) {given : List (List Char)}
    (hne : given ≠ []) (h : ∀ part ∈ given, ∀ d ∈ part, isSeparator d = false) :
    parts isSeparator (List.intercalate [c] given) = given := by
  induction given with
  | nil => exact absurd rfl hne
  | cons first more ih =>
    have hfirst := parts_of_no_separator (h first List.mem_cons_self)
    cases more with
    | nil => simpa [List.intercalate] using hfirst
    | cons next more =>
      have hmore := ih (by simp) fun part hpart => h part (List.mem_cons_of_mem _ hpart)
      have hjoin : List.intercalate [c] (first :: next :: more)
          = first ++ c :: List.intercalate [c] (next :: more) := by
        simp [List.intercalate]
      rw [hjoin, parts_append_separator hc, hfirst, hmore]
      rfl

end BootTrust.Text
