import BootTrust.Disk.Effect
import Mathlib.Logic.Function.Basic
/-
What can be seen of a disk from above: at each location a file with its content, a directory, or
nothing. A directory is not opened, so its entries are seen at their own locations only.

The tree behind a disk is awkward to reason about, because a change of one file rebuilds every
directory above it. Seen from above the same change is a change at a single location,
`Function.update`, and every other location shows what it showed. There is one such law for each
`Effect`, and nothing behind this file has to look at a tree again.

The laws do not hold for arbitrary effects: a whole directory can be renamed, and an entry can be
put where there is no directory. What is asked for is what a writer has checked: `Disk.IsEntry` says
that the location is a name in a directory that is there.
-/

set_option autoImplicit false

namespace BootTrust

/-- What is seen of a node without opening it. -/
inductive Surface where
  | file (content : Bytes)
  | directory
  deriving DecidableEq

namespace Node

/-- What is seen of a node. -/
def surface : Node → Surface
  | .file content => .file content
  | .directory _ => .directory

/-- Whether there is no more to a node than what is seen: it is a file, or a directory without
entries. -/
def IsLeaf : Node → Prop
  | .file _ => True
  | .directory entries => entries = []

/-- Below a node that is a leaf there is nothing. -/
theorem IsLeaf.find?_cons {node : Node} (h : node.IsLeaf) (name : String) (below : Location) :
    node.find? (name :: below) = none := by
  rcases node with content | entries
  · rfl
  · have hnil : entries = [] := h
    subst hnil
    rfl

/-- A directory above the changed location stays a directory. -/
theorem find?_alter_above (change : Option Node → Option Node) (node : Node) (above : Location)
    (name : String) (below : Location) (entries : List (String × Node))
    (h : node.find? above = some (.directory entries)) :
    ∃ entries', (node.alter change (above ++ name :: below)).find? above
      = some (.directory entries') := by
  -- along the location, down to the directory itself
  induction above generalizing node with
  | nil =>
    have hnode : node = .directory entries := by simpa [find?] using h
    subst hnode
    rcases below with _ | ⟨next, more⟩
    · exact ⟨_, rfl⟩
    · rw [List.nil_append, alter]
      rcases entries.lookup name with _ | child
      · exact ⟨entries, rfl⟩
      · exact ⟨_, rfl⟩
  | cons first above ih =>
    rcases node with content | outer
    · simp [find?] at h
    · rw [find?] at h
      rcases hl : outer.lookup first with _ | child
      · simp [hl] at h
      · rw [hl] at h
        obtain ⟨entries', hrec⟩ := ih child h
        rcases hrest : above ++ name :: below with _ | ⟨next, more⟩
        · simp at hrest
        · rw [hrest] at hrec
          refine ⟨entries', ?_⟩
          simp only [List.cons_append, hrest, alter, hl, find?, lookup_insertEntry, if_true]
          exact hrec

end Node

namespace Disk

/-- What is seen at a location. -/
def surface? (disk : Disk) (place : Location) : Option Surface :=
  (disk.find? place).map Node.surface

/-- Whether a location is a name in a directory that is there. -/
def IsEntry (disk : Disk) (place : Location) : Prop :=
  ∃ above name, place = above ++ [name] ∧ disk.surface? above = some .directory

theorem surface?_eq_directory_iff {disk : Disk} {place : Location} :
    disk.surface? place = some .directory
      ↔ ∃ entries, disk.find? place = some (.directory entries) := by
  unfold surface?
  rcases disk.find? place with _ | _ | entries <;> simp [Node.surface]

theorem surface?_eq_file_iff {disk : Disk} {place : Location} {content : Bytes} :
    disk.surface? place = some (.file content) ↔ disk.find? place = some (.file content) := by
  unfold surface?
  rcases disk.find? place with _ | _ | entries <;> simp [Node.surface]

theorem surface?_eq_none_iff {disk : Disk} {place : Location} :
    disk.surface? place = none ↔ disk.find? place = none := by
  rw [surface?, Option.map_eq_none_iff]

/-- The root is always a directory. -/
theorem surface?_root (disk : Disk) : disk.surface? [] = some .directory :=
  surface?_eq_directory_iff.mpr ⟨disk.entries, rfl⟩

/-- Where something is seen, everything above is a directory. -/
theorem surface?_above {disk : Disk} {above : Location} {name : String} {below : Location}
    (h : disk.surface? (above ++ name :: below) ≠ none) :
    disk.surface? above = some .directory := by
  rw [ne_eq, surface?_eq_none_iff, find?, Node.find?_append] at h
  rw [surface?_eq_directory_iff, find?]
  rcases hab : disk.root.find? above with _ | content | entries
  · simp [hab] at h
  · simp [hab, Node.find?] at h
  · exact ⟨entries, rfl⟩

/-- A file is an entry of a directory, since the root is none. -/
theorem isEntry_of_file {disk : Disk} {place : Location} {content : Bytes}
    (h : disk.surface? place = some (.file content)) : disk.IsEntry place := by
  rcases List.eq_nil_or_concat place with rfl | ⟨above, name, rfl⟩
  · rw [surface?_root] at h
    simp at h
  · rw [List.concat_eq_append] at h ⊢
    exact ⟨above, name, rfl, surface?_above (by rw [h]; simp)⟩

/-! ## A change at one location -/

/-- A change at an entry that is no directory, to something that is a leaf, is seen at the entry and
nowhere else. -/
theorem surface?_alter {disk : Disk} {place : Location} {change : Option Node → Option Node}
    (hentry : disk.IsEntry place) (hold : disk.surface? place ≠ some .directory)
    (hnew : ∀ node, change (disk.find? place) = some node → node.IsLeaf) :
    (disk.alter place change).surface?
      = Function.update disk.surface? place ((change (disk.find? place)).map Node.surface) := by
  obtain ⟨above, name, rfl, habove⟩ := hentry
  obtain ⟨entries, hentries⟩ := surface?_eq_directory_iff.mp habove
  have hat := find?_alter_entry disk change above name entries hentries
  -- the entry itself, what is above it, what is below it, and everything else
  funext other
  by_cases heq : other = above ++ [name]
  · subst heq
    rw [Function.update_self, surface?, hat]
  rw [Function.update_of_ne heq]
  by_cases hup : other <+: above ++ [name]
  · -- a directory above the entry: it has other entries now, and shows the same
    have hpre : other <+: above := by
      rcases List.prefix_concat_iff.mp (by simpa using hup) with h | h
      · exact absurd (by simpa using h) heq
      · exact h
    obtain ⟨rest, rfl⟩ := hpre
    have hdir : disk.surface? other = some .directory := by
      rcases rest with _ | ⟨next, more⟩
      · simpa using habove
      · exact surface?_above (by rw [habove]; simp)
    obtain ⟨es, hes⟩ := surface?_eq_directory_iff.mp hdir
    have hsplit : ∃ next more, rest ++ [name] = next :: more := by
      rcases rest with _ | ⟨next, more⟩
      · exact ⟨name, [], rfl⟩
      · exact ⟨next, more ++ [name], rfl⟩
    obtain ⟨next, more, hsplit⟩ := hsplit
    rw [hdir, surface?_eq_directory_iff, find?, root_alter, List.append_assoc, hsplit]
    exact Node.find?_alter_above change disk.root other next more es hes
  by_cases hdown : above ++ [name] <+: other
  · -- below the entry there was nothing and is nothing
    obtain ⟨rest, rfl⟩ := hdown
    rcases rest with _ | ⟨next, more⟩
    · simp at heq
    have hnow : (disk.alter (above ++ [name]) change).find? (above ++ [name] ++ next :: more)
        = none := by
      rw [find?, Node.find?_append, ← find?, hat]
      rcases hc : change (disk.find? (above ++ [name])) with _ | node
      · rfl
      · exact (hnew node hc).find?_cons next more
    have hthen : disk.surface? (above ++ [name] ++ next :: more) = none := by
      by_contra hsome
      exact hold (surface?_above hsome)
    rw [hthen, surface?_eq_none_iff, hnow]
  · rw [surface?, surface?, find?_alter_of_apart disk change _ other hup hdown]

end Disk

/-! ## What an effect does -/

namespace Effect

open Disk

theorem here_alter (disk : Disk) (place : Location) (change : Option Node → Option Node) :
    (disk.alter place change).here = disk.here := by
  unfold Disk.alter
  split <;> rfl

/-- No effect changes where relative paths start from. -/
@[simp] theorem here_apply (disk : Disk) (effect : Effect) :
    (apply disk effect).here = disk.here := by
  rcases effect with place | place | ⟨place, bytes⟩ | ⟨source, target⟩
  · exact here_alter ..
  · exact here_alter ..
  · exact here_alter ..
  · rw [apply]
    split
    · rfl
    · rw [here_alter, here_alter]

@[simp] theorem here_applyAll (effects : List Effect) (disk : Disk) :
    (applyAll effects disk).here = disk.here := by
  induction effects generalizing disk with
  | nil => rfl
  | cons effect effects ih =>
    have h := ih (apply disk effect)
    rw [here_apply] at h
    exact h

theorem applyAll_append (first second : List Effect) (disk : Disk) :
    applyAll (first ++ second) disk = applyAll second (applyAll first disk) :=
  List.foldl_append ..

theorem applyAll_singleton (effect : Effect) (disk : Disk) :
    applyAll [effect] disk = apply disk effect :=
  rfl

/-- A new directory is seen where it was made. -/
theorem surface?_makeDirectory {disk : Disk} {place : Location} (hentry : disk.IsEntry place)
    (hnone : disk.surface? place = none) :
    (apply disk (.makeDirectory place)).surface?
      = Function.update disk.surface? place (some .directory) := by
  have hfind := surface?_eq_none_iff.mp hnone
  rw [apply, surface?_alter hentry (by rw [hnone]; simp)]
  · rw [hfind]
    rfl
  · intro node h
    rw [hfind] at h
    cases h
    rfl

/-- A cleared file is seen as a file without content. -/
theorem surface?_clear {disk : Disk} {place : Location} (hentry : disk.IsEntry place)
    (hfile : disk.surface? place ≠ some .directory) :
    (apply disk (.clear place)).surface?
      = Function.update disk.surface? place (some (.file [])) := by
  have hno : ∀ entries, disk.find? place ≠ some (.directory entries) := fun entries h =>
    hfile (surface?_eq_directory_iff.mpr ⟨entries, h⟩)
  rw [apply, surface?_alter hentry hfile]
  · rcases hf : disk.find? place with _ | content | entries
    · rfl
    · rfl
    · exact absurd hf (hno entries)
  · intro node h
    rcases hf : disk.find? place with _ | content | entries
    · rw [hf] at h
      cases h
      trivial
    · rw [hf] at h
      cases h
      trivial
    · exact absurd hf (hno entries)

/-- Added bytes are seen behind the content that was there. -/
theorem surface?_append {disk : Disk} {place : Location} {content : Bytes} (bytes : Bytes)
    (hfile : disk.surface? place = some (.file content)) :
    (apply disk (.append place bytes)).surface?
      = Function.update disk.surface? place (some (.file (content ++ bytes))) := by
  have hfind := surface?_eq_file_iff.mp hfile
  rw [apply, surface?_alter (isEntry_of_file hfile) (by rw [hfile]; simp)]
  · rw [hfind]
    rfl
  · intro node h
    rw [hfind] at h
    cases h
    trivial

/-- A renamed file is seen under its new name, and no longer under its old one. The two names may be
the same. -/
theorem surface?_rename {disk : Disk} {old new : Location} {content : Bytes}
    (hold : disk.surface? old = some (.file content)) (hentry : disk.IsEntry new)
    (hnew : disk.surface? new ≠ some .directory) :
    (apply disk (.rename old new)).surface?
      = Function.update (Function.update disk.surface? old none) new (some (.file content)) := by
  have hfind := surface?_eq_file_iff.mp hold
  have hgone : (disk.alter old fun _ => none).surface? = Function.update disk.surface? old none :=
    surface?_alter (isEntry_of_file hold) (by rw [hold]; simp) (by simp)
  have hentry' : (disk.alter old fun _ => none).IsEntry new := by
    obtain ⟨above, name, rfl, habove⟩ := hentry
    refine ⟨above, name, rfl, ?_⟩
    -- the old name is a file, so it is not the directory of the new one
    rw [hgone, Function.update_of_ne, habove]
    rintro rfl
    rw [hold] at habove
    simp at habove
  have hnew' : (disk.alter old fun _ => none).surface? new ≠ some .directory := by
    rw [hgone]
    by_cases heq : new = old
    · rw [heq, Function.update_self]
      simp
    · rwa [Function.update_of_ne heq]
  simp only [apply, hfind]
  rw [surface?_alter hentry' hnew', hgone]
  · rfl
  · intro node h
    cases h
    trivial

end Effect

end BootTrust
