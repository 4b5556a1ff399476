import BootTrust.Config
import BootTrust.Proofs.Json.Records
/-
Configurations are read back as they were written, member by member: the flag, the two texts that
may be unset, the two texts that may not, and the number of seconds, which fits the integers of a
document. What is written is a text, so a file that holds it is loaded (`load_of_read`).
-/

set_option autoImplicit false

namespace BootTrust.Config

open Json

theorem flag_print (sp : Spacing) (depth : Nat) (b : Bool) (rest : Bytes) :
    flag (sp.afterColon ++ (Document.bool b).print sp depth ++ rest) = .ok (b, rest) := by
  obtain ⟨-, htrue, hfalse⟩ := encode_words
  rw [flag, List.append_assoc, skipBlanks_append sp.afterColon_blank]
  rcases b with _ | _
  · rw [Document.print, hfalse, List.cons_append, skipBlanks_cons (by decide)]
    simp only [word_append]
    rfl
  · rw [Document.print, htrue, List.cons_append, skipBlanks_cons (by decide)]
    simp only [word_append]
    rfl

/-- A text that may be unset is read back if the reader of the text reads it back. -/
theorem orNull_print {α : Type} {reader : Reader α} {found : String → α}
    (hread : ∀ s rest, reader (stringBytes s ++ rest) = .ok (found s, rest)) (sp : Spacing)
    (depth : Nat) (s : Option String) (rest : Bytes) :
    orNull reader (sp.afterColon ++ (textOrNull s).print sp depth ++ rest)
      = .ok (s.map found, rest) := by
  obtain ⟨hnull, -⟩ := encode_words
  rw [orNull, List.append_assoc, skipBlanks_append sp.afterColon_blank]
  rcases s with _ | s
  · rw [textOrNull, Document.print, hnull, List.cons_append, skipBlanks_cons (by decide)]
    simp only [word_append]
    rfl
  · have hs := hread s rest
    rw [stringBytes, List.cons_append, List.cons_append] at hs
    rw [textOrNull, Document.print, stringBytes, List.cons_append, List.cons_append,
      skipBlanks_cons (by decide)]
    simp only [hs]
    rfl

theorem stringAs_stringBytes (expected s : String) (rest : Bytes) :
    stringAs expected (stringBytes s ++ rest) = .ok (s, rest) := by
  have h := stringAs_print expected .none 0 s rest
  rwa [Document.print] at h

theorem path_stringBytes (s : String) (rest : Bytes) :
    path (stringBytes s ++ rest) = .ok (⟨s⟩, rest) := by
  rw [path, pathText, stringAs_stringBytes]
  rfl

theorem seconds_print (sp : Spacing) (depth : Nat) (n : UInt64) {rest : Bytes}
    (hends : EndsValue rest) :
    seconds (sp.afterColon
        ++ (Document.number (.integer n.toNat (seconds_inRange n))).print sp depth ++ rest)
      = .ok (n, rest) := by
  have hkind : unsigned64.least ≤ (n.toNat : Int) ∧ (n.toNat : Int) ≤ unsigned64.greatest := by
    have := n.toNat_lt
    simp only [unsigned64]
    omega
  rw [seconds, Document.print, integerAs_integer hkind sp.afterColon_blank hends]
  show Except.ok (UInt64.ofNat (n.toNat : Int).toNat, rest) = _
  rw [Int.toNat_natCast, UInt64.ofNat_toNat]

/-- A configuration is read back from what is printed for it. -/
theorem parse_print (config : Config) (sp : Spacing) :
    shape.parse (config.document.print sp 0) = .ok config := by
  have hpath : (config.seedPath.map Path.text).map Path.mk = config.seedPath := by
    rw [Option.map_map]
    exact Option.map_id'
  refine Shape.parse_print ⟨some config.useSignedUrl, some config.signEndpoint,
    some config.seedPath, some config.volumeLabel, some config.mediaRelativePath,
    some config.timeoutSeconds⟩ ?_ rfl
  refine .slot rfl rfl (fun rest _ => flag_print sp 1 config.useSignedUrl rest) ?_
  refine .slot rfl rfl (b := config.signEndpoint) (fun rest _ => ?_) ?_
  · have h := orNull_print (stringAs_stringBytes "a string") sp 1 config.signEndpoint rest
    rwa [Option.map_id'] at h
  refine .slot rfl rfl (b := config.seedPath) (fun rest _ => ?_) ?_
  · have h := orNull_print path_stringBytes sp 1 (config.seedPath.map Path.text) rest
    rwa [hpath] at h
  refine .slot rfl rfl (fun rest _ => text_print sp 1 config.volumeLabel rest) ?_
  refine .slot rfl rfl (fun rest _ => text_print sp 1 config.mediaRelativePath rest) ?_
  refine .slot rfl rfl (fun rest hends => seconds_print sp 1 config.timeoutSeconds hends) ?_
  exact .nil _

/-- A file that holds a configuration as it is saved is loaded as that configuration. -/
theorem load_of_read {disk : Disk} {p : Path} {config : Config}
    (h : disk.read p = .ok config.document.pretty) : load disk p = .ok config := by
  obtain ⟨text, hdecode, -⟩ := (config.document.isText_print .indented 0).decode?
  have hsome : (Utf8.decode? config.document.pretty).isNone = false := by
    rw [Document.pretty, hdecode]
    rfl
  have hparse := config.parse_print .indented
  rw [← Document.pretty] at hparse
  rw [load, h]
  simp only [hsome, hparse]
  rfl

/-- Saving a configuration replaces the file, and words the failure anew. -/
theorem save_eq (config : Config) (p : Path) (disk : Disk) :
    config.save p disk
      = ((Disk.replaceFile p config.document.pretty disk).1,
        (Disk.replaceFile p config.document.pretty disk).2.mapError (.io p)) := by
  unfold save
  rcases Disk.replaceFile p config.document.pretty disk with ⟨effects, cause | ⟨⟩⟩
  · rfl
  · rfl

end BootTrust.Config
