import BootTrust.State.Store
import BootTrust.Text.Blank
/-
Whether signed URLs are required. A configuration that uses them decides at once, and the decision
is kept in the state. Otherwise a decision that was kept counts, whichever way it went; and if there
is none that can be recognised, the answer is no, and that is kept.
-/

set_option autoImplicit false

namespace BootTrust.Decision

/-- The key under which the decision is kept. -/
def key : String := "beyond_corp"

/-- The decision that a text stands for, if it stands for one. -/
def ofText? (text : String) : Option Bool :=
  let word := Text.asciiLower (Text.trim text)
  if word = "true" then some true else if word = "false" then some false else none

/-- The text under which a decision is kept. -/
def text (decision : Bool) : String :=
  if decision then "True" else "False"

/-- Keeps a decision and answers with it. -/
def keep (decision : Bool) : StateProgram (Except StateError Bool) :=
  .set key (text decision) fun
    | .ok () => .done (.ok decision)
    | .error e => .done (.error e)

/-- Whether signed URLs are required under a configuration that uses them or not. A decision that
cannot be read is treated like one that was never kept. -/
def required (useSignedUrl : Bool) : StateProgram (Except StateError Bool) :=
  if useSignedUrl then keep true
  else
    .get key fun
      | .ok (some stored) =>
        match ofText? stored with
        | some decision => .done (.ok decision)
        | none => keep false
      | _ => keep false

end BootTrust.Decision
