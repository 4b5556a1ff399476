/-
Finite maps whose keys are texts, kept as a list of entries in ascending order of the keys. The
order of texts is by code point, which is also the order of their UTF-8 bytes, so listing a map in
its own order is listing it by the bytes of its keys.

A map has one list only: two maps that answer every look-up alike are equal (`SortedMap.ext`). That
is what makes the printed form of a map independent of the order in which it was filled.
-/

set_option autoImplicit false

namespace BootTrust

variable {α : Type}

/-! ## Entries -/

/-- Puts an entry at its place, in front of the first greater key; an entry with the same key is
replaced. -/
def insertEntry (key : String) (value : α) : List (String × α) → List (String × α)
  | [] => [(key, value)]
  | (k, v) :: rest =>
    if key < k then (key, value) :: (k, v) :: rest
    else if key = k then (key, value) :: rest
    else (k, v) :: insertEntry key value rest

/-- The entries of a list in ascending order of keys; of several with one key the last counts. -/
def sortEntries (entries : List (String × α)) : List (String × α) :=
  entries.foldl (fun acc (k, v) => insertEntry k v acc) []

/-- Each key is less than all that follow it. -/
def Ascending (entries : List (String × α)) : Prop :=
  entries.Pairwise fun a b => a.1 < b.1

theorem lookup_insertEntry (key k : String) (value : α) (entries : List (String × α)) :
    (insertEntry key value entries).lookup k
      = if k = key then some value else entries.lookup k := by
  induction entries with
  | nil => grind [insertEntry]
  | cons e rest ih => grind [insertEntry]

theorem mem_insertEntry {key : String} {value : α} {e : String × α} {entries : List (String × α)}
    (h : e ∈ insertEntry key value entries) : e = (key, value) ∨ e ∈ entries := by
  induction entries with
  | nil => simpa [insertEntry] using h
  | cons e' rest ih => grind [insertEntry]

theorem Ascending.insertEntry {key : String} {value : α} {entries : List (String × α)}
    (h : Ascending entries) : Ascending (insertEntry key value entries) := by
  induction entries with
  | nil => simp [BootTrust.insertEntry, Ascending]
  | cons e rest ih =>
    obtain ⟨k, v⟩ := e
    rcases List.pairwise_cons.mp h with ⟨hk, hrest⟩
    rw [BootTrust.insertEntry]
    split
    · next hlt =>
      refine List.pairwise_cons.mpr ⟨fun a ha => ?_, h⟩
      rcases List.mem_cons.mp ha with rfl | ha
      · exact hlt
      · exact String.lt_trans hlt (hk a ha)
    · next hge =>
      split
      · next heq => exact List.pairwise_cons.mpr ⟨fun a ha => heq ▸ hk a ha, hrest⟩
      · next hne =>
        refine List.pairwise_cons.mpr ⟨fun a ha => ?_, ih hrest⟩
        rcases mem_insertEntry ha with rfl | ha
        · -- neither less nor equal, so greater
          exact Decidable.byContradiction fun hn => hne (String.le_antisymm hn hge)
        · exact hk a ha

theorem ascending_sortEntries (entries : List (String × α)) : Ascending (sortEntries entries) := by
  have key : ∀ (l acc : List (String × α)), Ascending acc →
      Ascending (l.foldl (fun acc (k, v) => BootTrust.insertEntry k v acc) acc) := by
    intro l
    induction l with
    | nil => intro acc h; exact h
    | cons e l ih => intro acc h; exact ih _ h.insertEntry
  exact key entries [] List.Pairwise.nil

/-- A key below every key of a list is not among them. -/
theorem lookup_eq_none_of_lt {k : String} {entries : List (String × α)}
    (h : ∀ e ∈ entries, k < e.1) : entries.lookup k = none := by
  rw [List.lookup_eq_none_iff]
  intro e he
  have hlt := h e he
  simp only [bne_iff_ne, ne_eq]
  exact fun heq => String.lt_irrefl k (heq ▸ hlt)

/-- An ascending list is determined by its look-ups. -/
theorem Ascending.ext {l₁ l₂ : List (String × α)} (h₁ : Ascending l₁) (h₂ : Ascending l₂)
    (h : ∀ k, l₁.lookup k = l₂.lookup k) : l₁ = l₂ := by
  induction l₁ generalizing l₂ with
  | nil =>
    cases l₂ with
    | nil => rfl
    | cons e l₂ =>
      obtain ⟨k, v⟩ := e
      simpa [List.lookup_cons] using h k
  | cons e₁ l₁ ih =>
    obtain ⟨k₁, v₁⟩ := e₁
    cases l₂ with
    | nil => simpa [List.lookup_cons] using h k₁
    | cons e₂ l₂ =>
      obtain ⟨k₂, v₂⟩ := e₂
      rcases List.pairwise_cons.mp h₁ with ⟨above₁, tail₁⟩
      rcases List.pairwise_cons.mp h₂ with ⟨above₂, tail₂⟩
      have absent {k k' : String} {v v' : α} {l l' : List (String × α)} (hlt : k < k')
          (above : ∀ e ∈ l', k' < e.1)
          (heq : ((k, v) :: l).lookup k = ((k', v') :: l').lookup k) : False := by
        have hnone : ((k', v') :: l').lookup k = none := lookup_eq_none_of_lt fun e he => by
          rcases List.mem_cons.mp he with rfl | he
          · exact hlt
          · exact String.lt_trans hlt (above e he)
        rw [hnone] at heq
        simp at heq
      by_cases hlt : k₁ < k₂
      · exact (absent hlt above₂ (h k₁)).elim
      by_cases hgt : k₂ < k₁
      · exact (absent hgt above₁ (h k₂).symm).elim
      -- neither is less, so the first keys agree, then the first values, then the tails
      obtain rfl : k₁ = k₂ := String.le_antisymm hgt hlt
      obtain rfl : v₁ = v₂ := by simpa [List.lookup_cons] using h k₁
      congr 1
      refine ih tail₁ tail₂ fun k => ?_
      by_cases hk : k = k₁
      · rw [hk, lookup_eq_none_of_lt above₁, lookup_eq_none_of_lt above₂]
      · have hb : (k == k₁) = false := beq_false_of_ne hk
        simpa [List.lookup_cons, hb] using h k

/-- An entry with a key above all others goes to the end. -/
theorem insertEntry_of_lt {key : String} {value : α} {entries : List (String × α)}
    (h : ∀ e ∈ entries, e.1 < key) : insertEntry key value entries = entries ++ [(key, value)] := by
  induction entries with
  | nil => rfl
  | cons e rest ih =>
    obtain ⟨k, v⟩ := e
    have hk : k < key := h (k, v) List.mem_cons_self
    have hno : ¬ key < k := fun hlt => String.lt_irrefl k (String.lt_trans hk hlt)
    have hne : key ≠ k := fun heq => String.lt_irrefl k (heq ▸ hk)
    rw [insertEntry, if_neg hno, if_neg hne, ih fun e he => h e (List.mem_cons_of_mem _ he)]
    rfl

/-- Putting the entries of an ascending list in place one by one gives the list. -/
theorem Ascending.foldl_insertEntry {acc entries : List (String × α)}
    (h : Ascending (acc ++ entries)) :
    entries.foldl (fun acc (k, v) => BootTrust.insertEntry k v acc) acc = acc ++ entries := by
  induction entries generalizing acc with
  | nil => rw [List.append_nil, List.foldl_nil]
  | cons e rest ih =>
    obtain ⟨k, v⟩ := e
    have habove : ∀ e ∈ acc, e.1 < k := fun e he =>
      (List.pairwise_append.mp h).2.2 e he (k, v) List.mem_cons_self
    rw [List.append_cons, ← insertEntry_of_lt habove] at h ⊢
    exact ih h

/-- An ascending list is sorted. -/
theorem Ascending.sortEntries {entries : List (String × α)} (h : Ascending entries) :
    sortEntries entries = entries :=
  Ascending.foldl_insertEntry (List.nil_append entries ▸ h)

/-- Sorting makes up no entry. -/
theorem mem_of_mem_sortEntries {e : String × α} {entries : List (String × α)}
    (h : e ∈ sortEntries entries) : e ∈ entries := by
  have hfold : ∀ (l acc : List (String × α)),
      e ∈ l.foldl (fun acc (k, v) => insertEntry k v acc) acc → e ∈ l ∨ e ∈ acc := by
    intro l
    induction l with
    | nil => exact fun acc hacc => Or.inr hacc
    | cons first l ih =>
      intro acc hacc
      rcases ih _ hacc with hl | hinsert
      · exact Or.inl (List.mem_cons_of_mem _ hl)
      · rcases mem_insertEntry hinsert with rfl | hacc
        · exact Or.inl List.mem_cons_self
        · exact Or.inr hacc
  exact (hfold entries [] h).resolve_right List.not_mem_nil

/-! ## Maps -/

/-- A finite map from texts. -/
structure SortedMap (α : Type) where
  /-- Keys and values, in ascending order of the keys. -/
  entries : List (String × α)
  /-- No key occurs twice and the order is strict. -/
  ascending : Ascending entries

namespace SortedMap

def empty : SortedMap α := ⟨[], List.Pairwise.nil⟩

def get? (map : SortedMap α) (key : String) : Option α :=
  map.entries.lookup key

/-- The map with `value` at `key`, whatever was there. -/
def insert (map : SortedMap α) (key : String) (value : α) : SortedMap α :=
  ⟨insertEntry key value map.entries, map.ascending.insertEntry⟩

/-- The map with `value` at `key` unless the key has a value already. -/
def insertIfNew (map : SortedMap α) (key : String) (value : α) : SortedMap α :=
  if (map.get? key).isSome then map else map.insert key value

/-- The map of a list of entries; of several with one key the last counts. -/
def ofEntries (entries : List (String × α)) : SortedMap α :=
  ⟨sortEntries entries, ascending_sortEntries entries⟩

def size (map : SortedMap α) : Nat :=
  map.entries.length

def isEmpty (map : SortedMap α) : Bool :=
  map.entries.isEmpty

theorem get?_empty (k : String) : (empty : SortedMap α).get? k = none := rfl

theorem get?_insert (map : SortedMap α) (key k : String) (value : α) :
    (map.insert key value).get? k = if k = key then some value else map.get? k :=
  lookup_insertEntry key k value map.entries

theorem get?_insertIfNew (map : SortedMap α) (key k : String) (value : α) :
    (map.insertIfNew key value).get? k
      = if k = key then some ((map.get? key).getD value) else map.get? k := by
  unfold insertIfNew
  split
  · next h =>
    obtain ⟨v, hv⟩ := Option.isSome_iff_exists.mp h
    by_cases hk : k = key <;> simp [hk, hv]
  · next h => rw [get?_insert]; simp [Option.not_isSome_iff_eq_none.mp h]

/-- Two maps with the same look-ups are equal, entry by entry. -/
theorem ext {m₁ m₂ : SortedMap α} (h : ∀ k, m₁.get? k = m₂.get? k) : m₁ = m₂ := by
  have := m₁.ascending.ext m₂.ascending h
  cases m₁
  cases m₂
  simpa using this

theorem entries_foldl_insert (entries : List (String × α)) (map : SortedMap α) :
    (entries.foldl (fun map (k, v) => map.insert k v) map).entries
      = entries.foldl (fun acc (k, v) => insertEntry k v acc) map.entries := by
  induction entries generalizing map with
  | nil => rfl
  | cons e rest ih => exact ih (map.insert e.1 e.2)

/-- A map is filled again from its own entries. -/
theorem foldl_insert_entries (map : SortedMap α) :
    map.entries.foldl (fun filled (k, v) => filled.insert k v) empty = map := by
  have h := entries_foldl_insert map.entries empty
  have hsame := map.ascending
  rw [← List.nil_append map.entries] at hsame
  rw [show (empty : SortedMap α).entries = [] from rfl, hsame.foldl_insertEntry,
    List.nil_append] at h
  refine ext fun k => ?_
  rw [get?, get?, h]

end SortedMap

end BootTrust
