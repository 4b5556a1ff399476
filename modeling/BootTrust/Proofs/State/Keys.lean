import BootTrust.State.Store
/-
Maps with small keys. Every map that a store works with has them: `foldKeys` makes such a map, and
setting a value keeps it one. On such maps `foldKeys` changes nothing, so a map that is written and
read again is not folded into another one.
-/

set_option autoImplicit false

namespace BootTrust.State

/-- Whether all keys of a map are written small. -/
def HasSmallKeys (map : SortedMap String) : Prop :=
  ∀ e ∈ map.entries, normalizeKey e.1 = e.1

theorem normalizeKey_normalizeKey (key : String) :
    normalizeKey (normalizeKey key) = normalizeKey key :=
  Text.asciiLower_asciiLower key

namespace HasSmallKeys

theorem empty : HasSmallKeys .empty := by
  intro e he
  cases he

theorem insert {map : SortedMap String} (h : HasSmallKeys map) {key : String}
    (hkey : normalizeKey key = key) (value : String) : HasSmallKeys (map.insert key value) := by
  intro e he
  rcases mem_insertEntry he with rfl | he
  · exact hkey
  · exact h e he

theorem insertIfNew {map : SortedMap String} (h : HasSmallKeys map) {key : String}
    (hkey : normalizeKey key = key) (value : String) :
    HasSmallKeys (map.insertIfNew key value) := by
  unfold SortedMap.insertIfNew
  split
  · exact h
  · exact h.insert hkey value

theorem foldEntry {map : SortedMap String} (h : HasSmallKeys map) (key value : String) :
    HasSmallKeys (foldEntry map key value) := by
  unfold State.foldEntry
  split
  · next hkey => exact h.insert hkey value
  · exact h.insertIfNew (normalizeKey_normalizeKey key) value

/-- Setting a value keeps the keys small. -/
theorem set {map : SortedMap String} (h : HasSmallKeys map) (key value : String) :
    HasSmallKeys (MemoryState.set map key value) :=
  h.insert (normalizeKey_normalizeKey key) value

end HasSmallKeys

/-- Folding makes all keys small. -/
theorem hasSmallKeys_foldKeys (raw : SortedMap String) : HasSmallKeys (foldKeys raw) := by
  have hfold : ∀ (entries : List (String × String)) (folded : SortedMap String),
      HasSmallKeys folded →
      HasSmallKeys (entries.foldl (fun folded e => foldEntry folded e.1 e.2) folded) := by
    intro entries
    induction entries with
    | nil => intro folded h; exact h
    | cons e entries ih => intro folded h; exact ih _ (h.foldEntry e.1 e.2)
  exact hfold raw.entries .empty HasSmallKeys.empty

/-- Folding changes nothing where all keys are small. -/
theorem foldKeys_of_hasSmallKeys {map : SortedMap String} (h : HasSmallKeys map) :
    foldKeys map = map := by
  have hfold : ∀ (entries : List (String × String)) (folded : SortedMap String),
      (∀ e ∈ entries, normalizeKey e.1 = e.1) →
      entries.foldl (fun folded e => foldEntry folded e.1 e.2) folded
        = entries.foldl (fun filled e => filled.insert e.1 e.2) folded := by
    intro entries
    induction entries with
    | nil => intro folded _; rfl
    | cons e entries ih =>
      intro folded hsmall
      obtain ⟨key, value⟩ := e
      have hfirst : foldEntry folded key value = folded.insert key value :=
        if_pos (hsmall (key, value) List.mem_cons_self)
      have hrest := ih (foldEntry folded key value) fun e he => hsmall e (List.mem_cons_of_mem _ he)
      rw [hfirst] at hrest
      simp only [List.foldl_cons, hfirst]
      exact hrest
  rw [foldKeys, hfold map.entries .empty h, map.foldl_insert_entries]

/-- A value is looked up under every spelling of the key it was set under, and under no other
key. -/
theorem get?_set (map : SortedMap String) (key value key' : String) :
    MemoryState.get? (MemoryState.set map key value) key'
      = if normalizeKey key' = normalizeKey key then some value else MemoryState.get? map key' := by
  rw [MemoryState.get?, MemoryState.set, SortedMap.get?_insert]
  rfl

end BootTrust.State
