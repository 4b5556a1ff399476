import BootTrust.Text.Parts
/-
Paths of files: texts with `/` between the names. A path keeps its text, because messages show it as
it was written and the length of the text is limited; what it leads to is decided by its components.
Repeated separators, a separator at the end and a `.` anywhere but at the very front make no
component, so several texts have the same components.
-/

set_option autoImplicit false

namespace BootTrust

/-- A path as it is written. -/
structure Path where
  text : String
  deriving DecidableEq, Repr

/-- One step of a path. -/
inductive Component where
  /-- The directory at the root; only at the front. -/
  | root
  /-- The directory itself; only at the front of a path that is relative. -/
  | here
  /-- The directory above. -/
  | up
  | name (s : String)
  deriving DecidableEq, Repr

namespace Component

def text : Component → String
  | .root => "/"
  | .here => "."
  | .up => ".."
  | .name s => s

/-- Whether a part between two separators stands for nothing: it is empty or a dot. -/
def isIdle (part : List Char) : Bool :=
  part = [] || part = ['.']

/-- What a part between two separators stands for. -/
def ofPart? (part : List Char) : Option Component :=
  if isIdle part then none
  else if part = ['.', '.'] then some .up
  else some (.name (String.ofList part))

def isName : Component → Bool
  | .name _ => true
  | _ => false

end Component

namespace Path

def isSlash (c : Char) : Bool := c = '/'

/-- What stands between the separators of a path. -/
def parts (p : Path) : List (List Char) :=
  Text.parts isSlash p.text.toList

def ofParts : List (List Char) → Path
  | [[]] => ⟨"/"⟩
  | parts => ⟨String.ofList (List.intercalate ['/'] parts)⟩

/-- The parts of a path are found again in it, but for a single empty part: it stands for the
root. -/
theorem parts_ofParts {given : List (List Char)} (hne : given ≠ []) (hroot : given ≠ [[]])
    (h : ∀ part ∈ given, ∀ c ∈ part, isSlash c = false) : (ofParts given).parts = given := by
  have heq : ofParts given = ⟨String.ofList (List.intercalate ['/'] given)⟩ := by
    unfold ofParts
    split
    · exact absurd rfl hroot
    · rfl
  rw [parts, heq, String.toList_ofList]
  exact Text.parts_intercalate (by decide) hne h

/-- The component at the front that only the front can have. -/
def front? : List (List Char) → Option Component
  | ['.'] :: _ => some .here
  | [] :: _ :: _ => some .root
  | _ => none

def components (p : Path) : List Component :=
  (front? p.parts).toList ++ p.parts.filterMap Component.ofPart?

/-- Whether a path is empty; such a path leads nowhere. -/
def isEmpty (p : Path) : Bool :=
  p.text.isEmpty

/-- Whether a path says by its end that it leads to a directory: it ends in a separator or in a dot
that makes no component. -/
def endsOpen (p : Path) : Bool :=
  match p.parts.reverse with
  | part :: _ :: _ => Component.isIdle part
  | _ => false

/-- Whether the last part of a path that has more than one is a dot. -/
def endsInDot (p : Path) : Bool :=
  match p.parts.reverse.dropWhile (· = []) with
  | ['.'] :: _ :: _ => true
  | _ => false

/-- The path that goes on from `p` with `part`; an absolute `part` starts anew. -/
def join (p : Path) (part : String) : Path :=
  let cs := p.text.toList
  if part.toList.head? = some '/' then ⟨part⟩
  else if cs = [] || cs.getLast? = some '/' then ⟨p.text ++ part⟩
  else ⟨p.text ++ "/" ++ part⟩

/-! ## Around the last component -/

/-- Parts in reverse without the idle ones behind the last component. The first part of the path
stays even if it is idle, since it may be a component of its own. -/
def settle : (reversed : List (List Char)) → List (List Char)
  | part :: next :: above =>
    if Component.isIdle part then settle (next :: above) else part :: next :: above
  | reversed => reversed

/-- The parts above the last component, in reverse. -/
def above (p : Path) : List (List Char) :=
  (settle p.parts.reverse).tail

/-- The directory that holds what the path leads to, as far as possible as it is written there; a
path without components and the root are in no directory. -/
def parent? (p : Path) : Option Path :=
  match p.components.getLast? with
  | none | some .root => none
  | some _ => some (ofParts (settle p.above).reverse)

/-! ## Ending of a name -/

/-- Cuts a name at its last dot, unless that is its first character: what stands before the dot and
what stands behind it. -/
def cutName (name : List Char) : List Char × Option (List Char) :=
  let behind := (name.reverse.takeWhile (· ≠ '.')).reverse
  let before := name.take (name.length - behind.length - 1)
  if behind.length = name.length || before = [] then (name, none) else (before, some behind)

/-- The path under which the content for `p` is kept until it is complete: the ending of the last
name is replaced by `.tmp`, or that ending is added. A path that ends in no name stays. The name
`..c` for any `c` gives way to `..`, since without its ending it is no name any more. -/
def temporary (p : Path) : Path :=
  match p.components.getLast? with
  | some (.name s) =>
    let (stem, ending) := cutName s.toList
    let last :=
      if stem = ['.'] && ending.isSome && !p.endsOpen then ['.', '.'] else stem ++ ".tmp".toList
    ofParts (last :: p.above).reverse
  | _ => p

example : components ⟨"./a//b/./../c/"⟩ = [.here, .name "a", .name "b", .up, .name "c"] := by
  decide

example : components ⟨"/a/./b/"⟩ = components ⟨"//a/b"⟩ := by decide

example :
    parent? ⟨"a//b/./c/"⟩ = some ⟨"a//b"⟩ ∧ parent? ⟨"a"⟩ = some ⟨""⟩ ∧ parent? ⟨"/"⟩ = none := by
  decide

example : temporary ⟨"d//state.json/"⟩ = ⟨"d//state.tmp"⟩ := by decide

example : temporary ⟨".json"⟩ = ⟨".json.tmp"⟩ := by decide

example : temporary ⟨"..c"⟩ = ⟨".."⟩ := by decide

end Path

end BootTrust
