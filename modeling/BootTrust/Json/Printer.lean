import BootTrust.Json.Document
import BootTrust.Json.Lexical
/-
Writing documents. There is one printer, and a `Spacing` that says where it puts blanks: `compact`
puts none, `pretty` puts each item and member on a line of its own. Members are written in the order
in which the document has them.

The functions for what follows the first item or member are separate, `moreItems` and `moreMembers`,
because a reader has to treat the first one differently as well.
-/

set_option autoImplicit false

namespace BootTrust.Json

/-- The blanks of a printed document. -/
structure Spacing where
  /-- What stands before an item, a member or a closing bracket that is `depth` brackets deep. -/
  lineBreak : (depth : Nat) → Bytes
  /-- What stands between a colon and a value. -/
  afterColon : Bytes
  /-- Only blanks are added before an item. -/
  lineBreak_blank : ∀ depth, ∀ b ∈ lineBreak depth, isBlankByte b = true
  /-- Only blanks are added after a colon. -/
  afterColon_blank : ∀ b ∈ afterColon, isBlankByte b = true

namespace Spacing

def none : Spacing where
  lineBreak _ := []
  afterColon := []
  lineBreak_blank := by simp
  afterColon_blank := by simp

/-- A line for each item, indented by two blanks a bracket, and a blank after a colon. -/
def indented : Spacing where
  lineBreak depth := 0x0A :: List.replicate (2 * depth) 0x20
  afterColon := [0x20]
  lineBreak_blank := by
    intro depth b hb
    rcases List.mem_cons.mp hb with rfl | hb
    · rfl
    · rw [List.eq_of_mem_replicate hb]; rfl
  afterColon_blank := by simp [isBlankByte]

end Spacing

/-- The bytes of a word of ASCII. -/
def Number.bytes (n : Number) : Bytes :=
  Utf8.encode n.text

namespace Document

mutual

/-- A document, `depth` brackets deep. -/
def print (sp : Spacing) (depth : Nat) : Document → Bytes
  | .null => Utf8.encode "null"
  | .bool true => Utf8.encode "true"
  | .bool false => Utf8.encode "false"
  | .number n => n.bytes
  | .string s => stringBytes s
  | .array [] => [openArray, closeArray]
  | .array (d :: ds) =>
    openArray :: (sp.lineBreak (depth + 1) ++ d.print sp (depth + 1) ++ moreItems sp depth ds)
  | .object [] => [openObject, closeObject]
  | .object ((name, d) :: ms) =>
    openObject :: (sp.lineBreak (depth + 1) ++ stringBytes name ++ colonByte :: sp.afterColon
      ++ d.print sp (depth + 1) ++ moreMembers sp depth ms)

/-- What follows an item: the others, each behind a comma, and the closing bracket. -/
def moreItems (sp : Spacing) (depth : Nat) : List Document → Bytes
  | [] => sp.lineBreak depth ++ [closeArray]
  | d :: ds =>
    commaByte :: (sp.lineBreak (depth + 1) ++ d.print sp (depth + 1) ++ moreItems sp depth ds)

/-- What follows a member: the others, each behind a comma, and the closing brace. -/
def moreMembers (sp : Spacing) (depth : Nat) : List (String × Document) → Bytes
  | [] => sp.lineBreak depth ++ [closeObject]
  | (name, d) :: ms =>
    commaByte :: (sp.lineBreak (depth + 1) ++ stringBytes name ++ colonByte :: sp.afterColon
      ++ d.print sp (depth + 1) ++ moreMembers sp depth ms)

end

def compact (d : Document) : Bytes :=
  d.print .none 0

/-- A document on several lines. -/
def pretty (d : Document) : Bytes :=
  d.print .indented 0

end Document

def Value.compact (v : Value) : Bytes :=
  v.document.compact

example : (Document.object [("a", .array [.null, .bool true]), ("b", .object [])]).compact
    = Utf8.encode "\x7b\"a\":[null,true],\"b\":\x7b\x7d\x7d" := by decide

example : (Document.object [("a", .array [.null])]).pretty
    = Utf8.encode "\x7b\n  \"a\": [\n    null\n  ]\n\x7d" := by decide

end BootTrust.Json
