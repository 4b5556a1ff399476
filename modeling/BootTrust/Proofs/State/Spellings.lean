import BootTrust.Proofs.State.Keys
import BootTrust.Proofs.Text.Utf8
/-
What becomes of the spellings of a key when the keys of a map are folded. The entries come in
ascending order, a small spelling overrides and any other one only fills a gap. So the small
spelling counts wherever it stands among the others, and without it the one that comes first
(`get?_foldl_foldEntry`, where what has been folded so far is arbitrary). In ascending order the
first spelling is the least one, by characters and by bytes alike.
-/

set_option autoImplicit false

namespace BootTrust

namespace SortedMap

variable {α : Type}

def keys (map : SortedMap α) : List String :=
  map.entries.map Prod.fst

theorem nodup_keys (map : SortedMap α) : map.keys.Nodup := by
  refine List.pairwise_map.mpr (map.ascending.imp fun hlt heq => ?_)
  rw [heq] at hlt
  exact String.lt_irrefl _ hlt

/-- An entry of a map is found under its key. -/
theorem get?_of_mem {map : SortedMap α} {e : String × α} (h : e ∈ map.entries) :
    map.get? e.1 = some e.2 := by
  obtain ⟨before, after, hentries⟩ := List.append_of_mem h
  have hascending := map.ascending
  rw [hentries] at hascending
  refine List.lookup_eq_some_iff.mpr ⟨before, after, hentries, fun p hp => ?_⟩
  have hlt : p.1 < e.1 := (List.pairwise_append.mp hascending).2.2 p hp e List.mem_cons_self
  simpa using fun heq : e.1 = p.1 => String.lt_irrefl _ (heq ▸ hlt)

/-- The keys of a map are those under which something is found. -/
theorem mem_keys_iff {map : SortedMap α} {key : String} :
    key ∈ map.keys ↔ ∃ value, map.get? key = some value := by
  constructor
  · intro h
    obtain ⟨e, he, rfl⟩ := List.mem_map.mp h
    exact ⟨e.2, get?_of_mem he⟩
  · rintro ⟨value, hvalue⟩
    obtain ⟨before, after, hentries, -⟩ := List.lookup_eq_some_iff.mp hvalue
    refine List.mem_map.mpr ⟨(key, value), ?_, rfl⟩
    rw [hentries]
    exact List.mem_append_right _ List.mem_cons_self

end SortedMap

namespace State

/-- That `key` is the spelling of `n` in a map whose bytes come first. -/
structure IsFirstSpelling (raw : SortedMap String) (n key : String) : Prop where
  mem : key ∈ raw.keys
  spells : normalizeKey key = n
  first : ∀ other ∈ raw.keys, normalizeKey other = n → Utf8.encode key ≤ Utf8.encode other

/-! ## Folding entry by entry -/

theorem get?_foldEntry (folded : SortedMap String) (key value n : String) :
    (foldEntry folded key value).get? n
      = if normalizeKey key = n then
          if key = n then some value else some ((folded.get? n).getD value)
        else folded.get? n := by
  unfold foldEntry
  by_cases hkey : normalizeKey key = key
  · rw [if_pos hkey, SortedMap.get?_insert, hkey]
    by_cases hn : key = n
    · simp [hn]
    · simp [hn, Ne.symm hn]
  · rw [if_neg hkey, SortedMap.get?_insertIfNew]
    by_cases hn : normalizeKey key = n
    · subst hn
      simp [Ne.symm hkey]
    · simp [hn, Ne.symm hn]

/-- What is found under a small key when entries have been folded into a map: the value of the key
itself, or else what was there before, or else the value of the first of its spellings. -/
theorem get?_foldl_foldEntry {entries : List (String × String)} (h : Ascending entries) {n : String}
    (hn : normalizeKey n = n) (folded : SortedMap String) :
    (entries.foldl (fun folded e => foldEntry folded e.1 e.2) folded).get? n
      = (entries.lookup n).or
          ((folded.get? n).or ((entries.find? fun e => normalizeKey e.1 = n).map Prod.snd)) := by
  induction entries generalizing folded with
  | nil => simp
  | cons e rest ih =>
    obtain ⟨key, value⟩ := e
    obtain ⟨habove, hrest⟩ := List.pairwise_cons.mp h
    rw [List.foldl_cons, ih hrest, get?_foldEntry]
    have hbehind : key ≠ n → ((key, value) :: rest).lookup n = rest.lookup n := fun hkey => by
      rw [List.lookup_cons, beq_false_of_ne (Ne.symm hkey)]
    by_cases hspells : normalizeKey key = n
    · by_cases hkey : key = n
      · -- the key is not among the later ones, so nothing overrides it
        subst hkey
        simp [lookup_eq_none_of_lt habove, hn]
      · rw [hbehind hkey, if_pos hspells, if_neg hkey,
          List.find?_cons_of_pos (by simpa using hspells)]
        rcases folded.get? n with _ | old
        · simp
        · simp
    · have hkey : key ≠ n := fun heq => hspells (heq ▸ hn)
      rw [hbehind hkey, if_neg hspells, List.find?_cons_of_neg (by simpa using hspells)]

/-! ## Folding a map -/

/-- What is found under a small key when a map has been folded. -/
theorem get?_foldKeys (raw : SortedMap String) {n : String} (hn : normalizeKey n = n) :
    (foldKeys raw).get? n
      = (raw.get? n).or ((raw.entries.find? fun e => normalizeKey e.1 = n).map Prod.snd) := by
  rw [foldKeys, get?_foldl_foldEntry raw.ascending hn, SortedMap.get?_empty, Option.none_or]
  rfl

/-- The spelling that is found first is the least one, and its value is that of the map. -/
theorem isFirstSpelling_of_find? {raw : SortedMap String} {n : String} {e : String × String}
    (h : (raw.entries.find? fun e => normalizeKey e.1 = n) = some e) :
    IsFirstSpelling raw n e.1 ∧ raw.get? e.1 = some e.2 := by
  obtain ⟨hspells, before, after, hentries, hbefore⟩ := List.find?_eq_some_iff_append.mp h
  have hmem : e ∈ raw.entries := List.mem_of_find?_eq_some h
  refine ⟨⟨List.mem_map_of_mem hmem, by simpa using hspells, fun other hother hn => ?_⟩,
    SortedMap.get?_of_mem hmem⟩
  obtain ⟨e', he', rfl⟩ := List.mem_map.mp hother
  rw [Utf8.encode_le_encode_iff]
  have hascending := raw.ascending
  rw [hentries] at hascending he'
  rcases List.mem_append.mp he' with hbefore' | hfrom
  · exact absurd hn (by simpa using hbefore e' hbefore')
  rcases List.mem_cons.mp hfrom with rfl | hafter
  · exact String.le_refl _
  · have hlt : e.1 < e'.1 :=
      (List.pairwise_cons.mp (List.pairwise_append.mp hascending).2.1).1 e' hafter
    exact String.lt_asymm hlt

/-- A small key is one of the map and keeps its value, or it has other spellings and the value of
the first one, or it has none and no value. -/
theorem foldKeys_cases (raw : SortedMap String) {n : String} (hn : normalizeKey n = n) :
    (n ∈ raw.keys ∧ (foldKeys raw).get? n = raw.get? n)
      ∨ (n ∉ raw.keys ∧ ∃ key, IsFirstSpelling raw n key ∧ (foldKeys raw).get? n = raw.get? key)
      ∨ ((∀ key ∈ raw.keys, normalizeKey key ≠ n) ∧ (foldKeys raw).get? n = none) := by
  rcases hown : raw.get? n with _ | value
  · have hnot : n ∉ raw.keys := fun h => by
      obtain ⟨value, hvalue⟩ := SortedMap.mem_keys_iff.mp h
      rw [hown] at hvalue
      cases hvalue
    have hget := get?_foldKeys raw hn
    rw [hown, Option.none_or] at hget
    rcases hfind : raw.entries.find? fun e => normalizeKey e.1 = n with _ | e
    · rw [hfind] at hget
      refine Or.inr (Or.inr ⟨fun key hkey hspells => ?_, hget⟩)
      obtain ⟨e, he, rfl⟩ := List.mem_map.mp hkey
      exact absurd hspells (by simpa using List.find?_eq_none.mp hfind e he)
    · rw [hfind] at hget
      obtain ⟨hfirst, hvalue⟩ := isFirstSpelling_of_find? hfind
      exact Or.inr (Or.inl ⟨hnot, e.1, hfirst, hget.trans hvalue.symm⟩)
  · refine Or.inl ⟨SortedMap.mem_keys_iff.mpr ⟨value, hown⟩, ?_⟩
    rw [get?_foldKeys raw hn, hown, Option.some_or]

theorem normalizeKey_of_mem {raw : SortedMap String} {n : String} (h : n ∈ (foldKeys raw).keys) :
    normalizeKey n = n := by
  obtain ⟨e, he, rfl⟩ := List.mem_map.mp h
  exact hasSmallKeys_foldKeys raw e he

/-- A key is among those of a folded map if and only if the map has a spelling of it. -/
theorem mem_keys_foldKeys_iff {raw : SortedMap String} {n : String} :
    n ∈ (foldKeys raw).keys ↔ ∃ key ∈ raw.keys, normalizeKey key = n := by
  constructor
  · intro h
    obtain ⟨value, hvalue⟩ := SortedMap.mem_keys_iff.mp h
    have hn := normalizeKey_of_mem h
    rcases foldKeys_cases raw hn with ⟨hmem, -⟩ | ⟨-, key, hfirst, -⟩ | ⟨-, hnone⟩
    · exact ⟨n, hmem, hn⟩
    · exact ⟨key, hfirst.mem, hfirst.spells⟩
    · rw [hnone] at hvalue
      cases hvalue
  · rintro ⟨key, hkey, rfl⟩
    rcases foldKeys_cases raw (normalizeKey_normalizeKey key) with ⟨hmem, hvalue⟩
      | ⟨-, first, hfirst, hvalue⟩ | ⟨hnone, -⟩
    · rw [SortedMap.mem_keys_iff, hvalue]
      exact SortedMap.mem_keys_iff.mp hmem
    · rw [SortedMap.mem_keys_iff, hvalue]
      exact SortedMap.mem_keys_iff.mp hfirst.mem
    · exact absurd rfl (hnone key hkey)

/-- What folding makes of the spellings in a map. -/
structure ResolvesSpellings (raw folded : SortedMap String) : Prop where
  /-- A key occurs once. -/
  nodup : folded.keys.Nodup
  /-- The keys are those of the map, with `A` to `Z` written small. -/
  mem_iff : ∀ n, n ∈ folded.keys ↔ ∃ key ∈ raw.keys, Text.asciiLower key = n
  /-- A key that the map has in this spelling keeps its value. -/
  own : ∀ n ∈ folded.keys, n ∈ raw.keys → folded.get? n = raw.get? n
  /-- Any other key has the value of the spelling whose bytes come first. -/
  first : ∀ n ∈ folded.keys, n ∉ raw.keys →
    ∃ key, IsFirstSpelling raw n key ∧ folded.get? n = raw.get? key

theorem resolvesSpellings (raw : SortedMap String) : ResolvesSpellings raw (foldKeys raw) := by
  refine ⟨SortedMap.nodup_keys _, fun n => mem_keys_foldKeys_iff, fun n h hmem => ?_,
    fun n h hnot => ?_⟩
  · have hn := normalizeKey_of_mem h
    rcases foldKeys_cases raw hn with ⟨-, hvalue⟩ | ⟨hnot, -⟩ | ⟨hnone, -⟩
    · exact hvalue
    · exact absurd hmem hnot
    · exact absurd hn (hnone n hmem)
  · rcases foldKeys_cases raw (normalizeKey_of_mem h) with ⟨hmem, -⟩ | ⟨-, hfirst⟩ | ⟨hnone, -⟩
    · exact absurd hmem hnot
    · exact hfirst
    · obtain ⟨key, hkey, hspells⟩ := mem_keys_foldKeys_iff.mp h
      exact absurd hspells (hnone key hkey)

/-- Folding a map resolves its spellings: each key occurs once and small, with the value that it has
in the map, or else with that of its first spelling in the order of bytes. Hence a map whose keys
are small stays as it is, folding a second time changes nothing, and an entry with a small key is
never lost to another spelling. -/
theorem foldKeys_resolves (raw : SortedMap String) :
    ResolvesSpellings raw (foldKeys raw)
      ∧ (HasSmallKeys raw → foldKeys raw = raw)
      ∧ foldKeys (foldKeys raw) = foldKeys raw
      ∧ ∀ n value, normalizeKey n = n → raw.get? n = some value →
        (foldKeys raw).get? n = some value := by
  refine ⟨resolvesSpellings raw, foldKeys_of_hasSmallKeys,
    foldKeys_of_hasSmallKeys (hasSmallKeys_foldKeys raw), ?_⟩
  intro n value hn hvalue
  rw [get?_foldKeys raw hn, hvalue, Option.some_or]

/-- Three spellings of one key with the small one among them, two of another key without it, and two
keys that differ in the case of a letter outside ASCII. -/
def mixedSpellings : SortedMap String :=
  .ofEntries [("image_id", "3"), ("Image_Id", "2"), ("IMAGE_ID", "1"), ("Key", "True"),
    ("KEY", "False"), ("é", "5"), ("É", "4")]

/-- The small spelling counts although two others come before it, `É` is not a spelling of `é`, and
of the two other spellings of `key` the one with the capitals counts. What has been folded is not
changed by folding. -/
theorem foldKeys_resolves_mixed :
    (foldKeys mixedSpellings).get? "image_id" = some "3"
      ∧ (foldKeys mixedSpellings).get? "É" = some "4"
      ∧ (foldKeys mixedSpellings).get? "key" = some "False"
      ∧ HasSmallKeys (foldKeys mixedSpellings)
      ∧ foldKeys (foldKeys mixedSpellings) = foldKeys mixedSpellings := by
  obtain ⟨hresolved, -, -, hkept⟩ := foldKeys_resolves mixedSpellings
  have hkey : "key" ∈ (foldKeys mixedSpellings).keys :=
    (hresolved.mem_iff "key").mpr ⟨"Key", by decide, by decide⟩
  obtain ⟨key, ⟨hmem, hspells, hfirst⟩, hvalue⟩ := hresolved.first "key" hkey (by decide)
  have hleast : ∀ key ∈ mixedSpellings.keys, normalizeKey key = "key" →
      Utf8.encode key ≤ Utf8.encode "KEY" → key = "KEY" := by decide
  obtain rfl := hleast key hmem hspells (hfirst "KEY" (by decide) (by decide))
  have hsmall := hasSmallKeys_foldKeys mixedSpellings
  exact ⟨hkept "image_id" "3" (by decide) (by decide), hkept "É" "4" (by decide) (by decide),
    hvalue.trans (by decide), hsmall, (foldKeys_resolves (foldKeys mixedSpellings)).2.1 hsmall⟩

end State

end BootTrust
