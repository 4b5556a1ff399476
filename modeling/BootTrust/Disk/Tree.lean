import BootTrust.Text.Utf8
import BootTrust.SortedMap
/-
What is on a disk: a tree of named directories and files. A location is the list of names that
lead to a node from the root directory. Everything that happens to a disk happens at one
location, through `Disk.alter`; a location below a missing name or below a file is nowhere, and
altering it changes nothing.
-/

set_option autoImplicit false

namespace BootTrust

/-- A file with its content, or a directory with its entries in ascending order of names. -/
inductive Node where
  | file (content : Bytes)
  | directory (entries : List (String × Node))

/-- The names that lead to a node, the outermost one first. -/
abbrev Location := List String

/-- A disk: the entries of its root directory, and the directory that relative paths start from. -/
structure Disk where
  entries : List (String × Node)
  here : Location

namespace Node

def isDirectory : Node → Bool
  | .file _ => false
  | .directory _ => true

/-- The node at a location below this one. -/
def find? : Node → Location → Option Node
  | node, [] => some node
  | .directory entries, name :: more =>
    match entries.lookup name with
    | some child => child.find? more
    | none => none
  | .file _, _ :: _ => none

/-- The entries of a directory, with the one called `name` changed, added or removed as `change`
says. -/
def alterEntry (name : String) (change : Option Node → Option Node)
    (entries : List (String × Node)) : List (String × Node) :=
  match change (entries.lookup name) with
  | some node => insertEntry name node entries
  | none => entries.filter (·.1 ≠ name)

/-- The tree with the node at a location changed, added or removed as `change` says. -/
def alter (change : Option Node → Option Node) : Location → Node → Node
  | [name], .directory entries => .directory (alterEntry name change entries)
  | name :: next :: more, .directory entries =>
    match entries.lookup name with
    | some child => .directory (insertEntry name (child.alter change (next :: more)) entries)
    | none => .directory entries
  | _, node => node

end Node

namespace Disk

def empty : Disk := ⟨[], []⟩

def root (disk : Disk) : Node :=
  .directory disk.entries

/-- The node at a location. -/
def find? (disk : Disk) (place : Location) : Option Node :=
  disk.root.find? place

/-- The disk with the node at a location changed, added or removed as `change` says. The root
directory itself stays. -/
def alter (disk : Disk) (place : Location) (change : Option Node → Option Node) : Disk :=
  match disk.root.alter change place with
  | .directory entries => ⟨entries, disk.here⟩
  | .file _ => disk

/-- The content of the file at a location. -/
def content? (disk : Disk) (place : Location) : Option Bytes :=
  match disk.find? place with
  | some (.file content) => some content
  | _ => none

end Disk

/-! ## What a change does to a look-up -/

namespace Node

theorem lookup_alterEntry (name k : String) (change : Option Node → Option Node)
    (entries : List (String × Node)) :
    (alterEntry name change entries).lookup k
      = if k = name then change (entries.lookup name) else entries.lookup k := by
  unfold alterEntry
  split
  · next h => rw [lookup_insertEntry, h]
  · next h =>
    rw [h]
    clear h
    induction entries with
    | nil => simp
    | cons entry entries ih => grind

/-- Going on from a node is looking up from there. -/
theorem find?_append (node : Node) (above below : Location) :
    node.find? (above ++ below) = (node.find? above).bind (·.find? below) := by
  induction above generalizing node with
  | nil => simp [find?]
  | cons name above ih =>
    cases node with
    | file content => simp [find?]
    | directory entries =>
      simp only [List.cons_append, find?]
      cases entries.lookup name with
      | none => rfl
      | some child => exact ih child

/-- An entry of a directory that is there becomes what the change makes of it. -/
theorem find?_alter_entry (change : Option Node → Option Node) (node : Node) (above : Location)
    (name : String) (entries : List (String × Node))
    (h : node.find? above = some (.directory entries)) :
    (node.alter change (above ++ [name])).find? (above ++ [name])
      = change (node.find? (above ++ [name])) := by
  induction above generalizing node with
  | nil =>
    simp only [find?, Option.some.injEq] at h
    subst h
    simp only [List.nil_append, alter, find?, lookup_alterEntry, if_true]
    cases hc : change (entries.lookup name) <;> cases hl : entries.lookup name <;> simp_all
  | cons first above ih =>
    cases node with
    | file content => simp [find?] at h
    | directory outer =>
      simp only [find?] at h
      cases hl : outer.lookup first with
      | none => simp [hl] at h
      | some child =>
        rw [hl] at h
        have step := ih child h
        cases hrest : above ++ [name] with
        | nil => simp at hrest
        | cons next more =>
          rw [hrest] at step
          simp only [List.cons_append, hrest, alter, hl, find?, lookup_insertEntry, if_true]
          exact step

/-- A location that neither leads to the changed one nor lies below it keeps its node. -/
theorem find?_alter_of_apart (change : Option Node → Option Node) (node : Node)
    (place other : Location) (above : ¬ other <+: place) (below : ¬ place <+: other) :
    (node.alter change place).find? other = node.find? other := by
  induction place generalizing node other with
  | nil => simp at below
  | cons first place ih =>
    cases other with
    | nil => simp at above
    | cons k other =>
      cases node with
      | file content => cases place <;> rfl
      | directory entries =>
        by_cases hk : k = first
        · subst hk
          rw [List.cons_prefix_cons] at above below
          cases place with
          | nil => simp at below
          | cons next more =>
            cases hl : entries.lookup k with
            | none => simp [alter, hl]
            | some child =>
              have step := ih child other (by simpa using above) (by simpa using below)
              simp only [alter, hl, find?, lookup_insertEntry, if_true]
              exact step
        · cases place with
          | nil => simp [alter, find?, lookup_alterEntry, hk]
          | cons next more =>
            cases hl : entries.lookup first with
            | none => simp [alter, hl]
            | some child => simp [alter, hl, find?, lookup_insertEntry, hk]

end Node

namespace Disk

/-- A change of a disk is a change of its root directory, which stays a directory. -/
theorem root_alter (disk : Disk) (place : Location) (change : Option Node → Option Node) :
    (disk.alter place change).root = disk.root.alter change place := by
  unfold alter root
  match place with
  | [] => rfl
  | [name] => rfl
  | name :: next :: more =>
    simp only [Node.alter]
    cases disk.entries.lookup name <;> rfl

/-- An entry of a directory that is there becomes what the change makes of it. -/
theorem find?_alter_entry (disk : Disk) (change : Option Node → Option Node) (above : Location)
    (name : String) (entries : List (String × Node))
    (h : disk.find? above = some (.directory entries)) :
    (disk.alter (above ++ [name]) change).find? (above ++ [name])
      = change (disk.find? (above ++ [name])) := by
  unfold find? at h ⊢
  rw [root_alter]
  exact Node.find?_alter_entry change disk.root above name entries h

/-- A location that neither leads to the changed one nor lies below it keeps its node. -/
theorem find?_alter_of_apart (disk : Disk) (change : Option Node → Option Node)
    (place other : Location) (above : ¬ other <+: place) (below : ¬ place <+: other) :
    (disk.alter place change).find? other = disk.find? other := by
  unfold find?
  rw [root_alter]
  exact Node.find?_alter_of_apart change disk.root place other above below

end Disk

/-! ## Listing -/

namespace Node

mutual

/-- The files and directories of a tree by their paths; a directory has a separator behind its path
and no content. -/
def list (path : String) : Node → List (String × Option Bytes)
  | .file content => [(path, some content)]
  | .directory entries => (path ++ "/", none) :: listEntries (path ++ "/") entries

/-- The files and directories among and below some entries. -/
def listEntries (front : String) : List (String × Node) → List (String × Option Bytes)
  | [] => []
  | (name, node) :: more => node.list (front ++ name) ++ listEntries front more

end

end Node

/-- All files and directories below the one that relative paths start from, in ascending order of
their relative paths. -/
def Disk.listing (disk : Disk) : List (String × Option Bytes) :=
  match disk.find? disk.here with
  | some (.directory entries) => (Node.listEntries "" entries).mergeSort fun a b => a.1 ≤ b.1
  | _ => []

end BootTrust
