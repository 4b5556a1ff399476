import BootTrust.Command.Run
import BootTrust.Proofs.Command.Lines
import BootTrust.Proofs.Hashing
import BootTrust.Proofs.Spelling.Documents
/-
What a launch with JSON output says, and the exit code beside it. Whatever a command finds out, and
however it fails, the members of its report are known by name, and only the texts in them come from
outside; so the output is a JSON object whatever these texts are (`jsonBytes_spells`), and whoever
reads it learns from `success` what the exit code says.

The output is judged by the grammar and not by one of the readers, so nothing is said of
a reader with its bounds.
-/

set_option autoImplicit false

namespace BootTrust.Command

open Json

/-! ## The text of a report -/

/-- That bytes are one JSON object and the end of its last line, and what the object has under each
name. -/
def SpellsObject (output : Bytes) (member? : String → Option Meaning) : Prop :=
  ∃ s : Spelling, output = s.bytes ++ [0x0A] ∧ s.meaning? = some (.object member?)

/-- What is printed for members without numbers is an object, and each name has the last member
under it. -/
theorem jsonBytes_spells {members : List (String × Document)}
    (h : Document.everyMember Number.isKeptExactly members = true) :
    SpellsObject (Report.jsonBytes members)
      (Spelling.family (Document.memberMeanings members)) := by
  obtain ⟨s, hbytes, hmeaning⟩ :=
    Document.exists_spelling .indented 0 (Document.object members).normal
      (Document.everyNumber_normal (.object members) h)
  refine ⟨s, ?_, ?_⟩
  · rw [hbytes]
    rfl
  · rw [hmeaning, Document.meaning_normal]
    rfl

/-! ## What the members say -/

/-- A failure has an exit code of its own, which is never that of success. -/
theorem Failure.exitCode_bounds (failure : Failure) :
    1 ≤ failure.exitCode ∧ failure.exitCode ≤ 6 := by
  have hkind : ∀ kind : FailureKind, 1 ≤ exitCodeOf kind ∧ exitCodeOf kind ≤ 6 := by
    intro kind
    rcases kind with _ | _ | _ | _ | _ | _ | _ | _ <;> decide
  cases failure with
  | verification cause => exact hkind cause.kind
  | device cause => rcases cause with _ | _ | _ | _ <;> simp [exitCode]
  | configuration | stateStore | hash | transport => simp [exitCode]

/-- Only a failure on the way to a signed URL has a reason. -/
theorem Failure.reason?_isSome_iff (failure : Failure) :
    failure.reason?.isSome = true ↔ failure.typeName = "verification" := by
  cases failure with
  | verification cause => exact ⟨fun _ => rfl, fun _ => rfl⟩
  | configuration | stateStore | hash | device | transport => simp [reason?, typeName]

/-- That the members of an object say what an exit code says. -/
structure Agrees (exitCode : Nat) (member? : String → Option Meaning) : Prop where
  success : ∃ success, member? "success" = some (.bool success) ∧ (success = true ↔ exitCode = 0)
  failure : exitCode ≠ 0 → 1 ≤ exitCode ∧ exitCode ≤ 6 ∧ ∃ error? type reason,
    member? "error" = some (.object error?)
      ∧ error? "type" = some (.string type) ∧ error? "reason" = some reason
      ∧ if type = "verification" then ∃ text, reason = .string text else reason = .null

namespace Report

theorem agrees_outcomeMembers (outcome : Outcome) :
    Agrees 0 (Spelling.family (Document.memberMeanings (outcomeMembers outcome))) := by
  refine ⟨⟨true, ?_, by simp⟩, fun h => absurd rfl h⟩
  cases outcome with
  | decision | signedUrl | hash | volume => rfl

theorem agrees_failureMembers (failure : Failure) :
    Agrees failure.exitCode
      (Spelling.family (Document.memberMeanings (failureMembers failure))) := by
  have hbounds := failure.exitCode_bounds
  refine ⟨⟨false, rfl, ?_⟩,
    fun _ => ⟨hbounds.1, hbounds.2, _, failure.typeName, _, rfl, rfl, rfl, ?_⟩⟩
  · simp only [Bool.false_eq_true, false_iff]
    omega
  · have hreason := failure.reason?_isSome_iff
    rcases hthere : failure.reason? with _ | reason
    · rw [hthere] at hreason
      rw [if_neg fun htype => by cases hreason.mpr htype]
      rfl
    · rw [hthere] at hreason
      rw [if_pos (hreason.mp rfl)]
      exact ⟨reason.text, rfl⟩

/-- No member of a report is a number. -/
theorem everyMember_outcomeMembers (p : Number → Bool) (outcome : Outcome) :
    Document.everyMember p (outcomeMembers outcome) = true := by
  cases outcome with
  | decision | signedUrl | hash | volume => rfl

theorem everyMember_failureMembers (p : Number → Bool) (failure : Failure) :
    Document.everyMember p (failureMembers failure) = true := by
  unfold failureMembers
  rcases failure.reason? with _ | reason
  · rfl
  · rfl

/-- What the object on the output has under each name. -/
def member? : Except Failure Outcome → String → Option Meaning
  | .ok outcome => Spelling.family (Document.memberMeanings (outcomeMembers outcome))
  | .error failure => Spelling.family (Document.memberMeanings (failureMembers failure))

theorem spellsObject_ofResult (result : Except Failure Outcome) :
    SpellsObject (ofResult true result).output (member? result) := by
  rcases result with failure | outcome
  · exact jsonBytes_spells (everyMember_failureMembers _ failure)
  · exact jsonBytes_spells (everyMember_outcomeMembers _ outcome)

theorem agrees_ofResult (result : Except Failure Outcome) :
    Agrees (ofResult true result).exitCode (member? result) := by
  rcases result with failure | outcome
  · exact agrees_failureMembers failure
  · exact agrees_outcomeMembers outcome

/-- With JSON output everything is on the output. -/
theorem errors_ofResult (result : Except Failure Outcome) : (ofResult true result).errors = "" := by
  rcases result with failure | outcome
  · rfl
  · rfl

end Report

/-! ## Launches -/

/-- Only the command `hash` has two operands that begin so. -/
theorem Action.eq_hash {action : Action} {file : String} (h : action.operands = ["hash", file]) :
    action = .hash ⟨file⟩ := by
  cases action with
  | check | volume | sign => simp [operands] at h
  | hash path =>
    obtain ⟨-, hpath⟩ := List.cons.inj h
    obtain ⟨rfl, -⟩ := List.cons.inj hpath
    rfl

/-- A file that can be read is hashed. -/
theorem Invocation.run_hash {σ : Type} {invocation : Invocation} {file : String}
    (haction : invocation.action = .hash ⟨file⟩) (host : Host σ) {disk : Disk} {content : Bytes}
    (hread : disk.read ⟨file⟩ = .ok content) (client : σ) :
    (invocation.run host disk client).result = .ok (.hash file (ContentHash.ofBytes content)) := by
  rw [run, haction]
  simp only [runHash, ContentHash.ofFile_of_read hread]
  rfl

/-- Every launch with JSON output whose line is understood prints one object and the end of its
line, and nothing else, and this object says what the exit code says. For a file that can be read it
has the hash of its content, and the argument as it was given. -/
theorem json_agrees_with_exitCode {σ : Type} (launch : Launch σ) (disk : Disk)
    (haccepted : (Invocation.parse launch.environment launch.arguments).isSome = true)
    (hjson : "--json" ∈ optionWords launch.arguments) :
    ∃ report member?, (launch.step disk).2 = some report ∧ SpellsObject report.output member?
      ∧ Agrees report.exitCode member? ∧ report.errors = ""
      ∧ ∀ file content, operandsOn launch.arguments = ["hash", file] →
        disk.read ⟨file⟩ = .ok content →
        report.exitCode = 0 ∧ member? "hash" = some (.string (ContentHash.ofBytes content))
          ∧ member? "path" = some (.string file) := by
  obtain ⟨invocation, hparse⟩ := Option.isSome_iff_exists.mp haccepted
  have hsaid := Invocation.isSaidBy_of_parse hparse
  have hstep : (launch.step disk).2
      = some (.ofResult true (invocation.run launch.host disk launch.client).result) := by
    rw [← hsaid.json.mpr hjson, Launch.step, hparse]
  refine ⟨_, Report.member? _, hstep, Report.spellsObject_ofResult _, Report.agrees_ofResult _,
    Report.errors_ofResult _, fun file content hoperands hread => ?_⟩
  have haction := Action.eq_hash (hsaid.action.symm.trans hoperands)
  rw [Invocation.run_hash haction launch.host hread]
  exact ⟨rfl, rfl, rfl⟩

/-- A name with a quotation mark, a line feed and a wide blank. -/
def oddName : String := "a\"\n\u3000"

/-- A disk with an empty file of that name. -/
def oddDisk : Disk := ⟨[(oddName, .file [])], []⟩

/-- A command about that name, on a host without volumes. -/
def oddLaunch (command : String) : Launch (List Answer) :=
  ⟨[], ["--json", command, oddName], ⟨.fixed [] [] none none, .ok .queue⟩, []⟩

/-- The file is hashed under its own name. A signed URL for it is refused, since none are in use,
and that is what `success` says. -/
theorem json_agrees_with_exitCode_odd :
    (∃ report member?, ((oddLaunch "hash").step oddDisk).2 = some report
      ∧ SpellsObject report.output member?
      ∧ report.exitCode = 0 ∧ member? "hash" = some (.string (ContentHash.ofBytes []))
      ∧ member? "path" = some (.string oddName))
    ∧ ∃ report member?, ((oddLaunch "sign").step oddDisk).2 = some report
      ∧ SpellsObject report.output member?
      ∧ report.exitCode = 2 ∧ member? "success" = some (.bool false) := by
  refine ⟨?_, ?_⟩
  · obtain ⟨report, member?, hstep, hspells, -, -, hhash⟩ :=
      json_agrees_with_exitCode (oddLaunch "hash") oddDisk (by decide +kernel) (by decide +kernel)
    have hread : oddDisk.read ⟨oddName⟩ = .ok [] := by rfl
    exact ⟨report, member?, hstep, hspells, hhash oddName [] (by decide +kernel) hread⟩
  · obtain ⟨report, member?, hstep, hspells, hagrees, -⟩ :=
      json_agrees_with_exitCode (oddLaunch "sign") oddDisk (by decide +kernel) (by decide +kernel)
    have hexit : ((oddLaunch "sign").step oddDisk).2.map Report.exitCode = some 2 := by
      decide +kernel
    rw [hstep] at hexit
    obtain ⟨success, hsuccess, hzero⟩ := hagrees.success
    have hcode : report.exitCode = 2 := Option.some.inj hexit
    have hfalse : success = false := by
      rw [← Bool.not_eq_true, hzero, hcode]
      decide
    exact ⟨report, member?, hstep, hspells, hcode, hfalse ▸ hsuccess⟩

end BootTrust.Command
