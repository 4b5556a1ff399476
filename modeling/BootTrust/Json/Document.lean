import BootTrust.Json.Number
import BootTrust.SortedMap
/-
JSON documents, at two levels. A `Document` is what a text says: members in the order in which they
were written, a name possibly more than once. A `Value` is what it means: every object has its
members in ascending order of names, each name once, the last of several members with one name
counting. `Document.normal` leads from the first to the second.

The main statement is `Document.isNormal_normal`; it is what allows a `Value` to carry
its normal form as a field.
-/

set_option autoImplicit false

namespace BootTrust.Json

/-- A JSON document as it is written. -/
inductive Document where
  | null
  | bool (b : Bool)
  | number (n : Number)
  | string (s : String)
  | array (items : List Document)
  | object (members : List (String × Document))

namespace Document

/-! ## Normal form -/

mutual

/-- The document with the members of every object sorted by name, the last of several with one name
counting. -/
def normal : Document → Document
  | .array items => .array (normalItems items)
  | .object members => .object (sortEntries (normalMembers members))
  | d => d

/-- The items of an array, each in normal form. -/
def normalItems : List Document → List Document
  | [] => []
  | d :: ds => d.normal :: normalItems ds

/-- The members of an object, each value in normal form. -/
def normalMembers : List (String × Document) → List (String × Document)
  | [] => []
  | (name, d) :: ms => (name, d.normal) :: normalMembers ms

end

mutual

/-- Whether every object in a document has its names in strictly ascending order. -/
def IsNormal : Document → Prop
  | .array items => ItemsNormal items
  | .object members => Ascending members ∧ MembersNormal members
  | _ => True

/-- Whether all documents of a list are in normal form. -/
def ItemsNormal : List Document → Prop
  | [] => True
  | d :: ds => d.IsNormal ∧ ItemsNormal ds

/-- Whether the values of all members are in normal form. -/
def MembersNormal : List (String × Document) → Prop
  | [] => True
  | (_, d) :: ms => d.IsNormal ∧ MembersNormal ms

end

theorem membersNormal_iff {members : List (String × Document)} :
    MembersNormal members ↔ ∀ m ∈ members, m.2.IsNormal := by
  induction members with
  | nil => simp [MembersNormal]
  | cons m ms ih => simp [MembersNormal, ih]

theorem MembersNormal.sortEntries {members : List (String × Document)}
    (h : MembersNormal members) : MembersNormal (sortEntries members) :=
  membersNormal_iff.mpr fun m hm => membersNormal_iff.mp h m (mem_of_mem_sortEntries hm)

mutual

theorem isNormal_normal : (d : Document) → d.normal.IsNormal
  | .null | .bool _ | .number _ | .string _ => by simp [normal, IsNormal]
  | .array items => by simpa [normal, IsNormal] using itemsNormal_normalItems items
  | .object members => by
    simp only [normal, IsNormal]
    exact ⟨ascending_sortEntries _, (membersNormal_normalMembers members).sortEntries⟩

theorem itemsNormal_normalItems : (ds : List Document) → ItemsNormal (normalItems ds)
  | [] => trivial
  | d :: ds => ⟨isNormal_normal d, itemsNormal_normalItems ds⟩

theorem membersNormal_normalMembers :
    (ms : List (String × Document)) → MembersNormal (normalMembers ms)
  | [] => trivial
  | (_, d) :: ms => ⟨isNormal_normal d, membersNormal_normalMembers ms⟩

end

end Document

/-! ## Values -/

/-- What a document means: a document in normal form. -/
structure Value where
  document : Document
  isNormal : document.IsNormal

namespace Value

/-- The meaning of a document. -/
def ofDocument (d : Document) : Value := ⟨d.normal, d.isNormal_normal⟩

def isNull (v : Value) : Bool :=
  match v.document with
  | .null => true
  | _ => false

/-- The value of the member `name`, if the value is an object that has it. -/
def member? (v : Value) (name : String) : Option Value :=
  match h : v.document with
  | .object members =>
    match hm : members.find? (·.1 = name) with
    | some (_, d) =>
      have hn : (Document.object members).IsNormal := h ▸ v.isNormal
      some ⟨d, Document.membersNormal_iff.mp hn.2 _ (List.mem_of_find?_eq_some hm)⟩
    | none => none
  | _ => none

end Value

end BootTrust.Json
