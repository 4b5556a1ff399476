import BootTrust.FileSource
/-
Files held in memory. Two paths name one file if and only if they have the same components.
-/

set_option autoImplicit false

namespace BootTrust

/-- Files by the components of their paths; the first entry of a path counts. -/
structure MemoryFiles where
  entries : List (List Component × Bytes)

namespace MemoryFiles

def empty : MemoryFiles := ⟨[]⟩

/-- The content of the file at a path. -/
def get? (files : MemoryFiles) (p : Path) : Option Bytes :=
  files.entries.lookup p.components

/-- The files without the one at a path. -/
def erase (files : MemoryFiles) (p : Path) : MemoryFiles :=
  ⟨files.entries.filter (·.1 ≠ p.components)⟩

/-- The files with `content` at a path, whatever was there. -/
def insert (files : MemoryFiles) (p : Path) (content : Bytes) : MemoryFiles :=
  ⟨(p.components, content) :: (files.erase p).entries⟩

/-- Takes a file away, and says whether there was one. -/
def remove (files : MemoryFiles) (p : Path) : MemoryFiles × Bool :=
  (files.erase p, (files.get? p).isSome)

/-! ## What a change does to a look-up -/

theorem get?_empty (p : Path) : empty.get? p = none := rfl

/-- Erasing a path takes away what has its components, and nothing else. -/
theorem get?_erase (files : MemoryFiles) (p q : Path) :
    (files.erase p).get? q = if q.components = p.components then none else files.get? q := by
  unfold get? erase
  induction files.entries with
  | nil => simp
  | cons entry entries ih => grind

/-- What was inserted last under some components is found under them, and nothing else changes. -/
theorem get?_insert (files : MemoryFiles) (p q : Path) (content : Bytes) :
    (files.insert p content).get? q
      = if q.components = p.components then some content else files.get? q := by
  have h := get?_erase files p q
  unfold get? at h ⊢
  grind [insert]

/-! ## As a source -/

/-- The failure to open a path at which there is no file. -/
def missing (p : Path) : IoFailure :=
  .described .notFound ("no such file: " ++ p.text)

/-- Files in memory as a source; every file comes whole. -/
def source (files : MemoryFiles) : FileSource where
  openFile p :=
    match files.get? p with
    | some content => .ok (.ofBytes content)
    | none => .error (missing p)

end MemoryFiles

/-! ## Changes, one after another -/

inductive FileChange where
  | insert (p : Path) (content : Bytes)
  | remove (p : Path)

def FileChange.path : FileChange → Path
  | .insert p _ => p
  | .remove p => p

namespace MemoryFiles

/-- Makes a change. -/
def change (files : MemoryFiles) : FileChange → MemoryFiles
  | .insert p content => files.insert p content
  | .remove p => (files.remove p).1

def changeAll (files : MemoryFiles) (changes : List FileChange) : MemoryFiles :=
  changes.foldl change files

end MemoryFiles

end BootTrust
