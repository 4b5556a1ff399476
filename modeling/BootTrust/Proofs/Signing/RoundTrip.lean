import BootTrust.MemoryFiles
import BootTrust.Proofs.Json.Printed
import BootTrust.Proofs.Signing.Messages
/-
Which requests and which seeds are read back as they were written. Both are records with one member
that comes from elsewhere, the value of a seed, and only this value can stand in the way.

If its numbers are integers, the depth of its brackets decides, and it decides exactly: the reader
of a record has one bracket open when it comes to a member, so a value that is read is nested one
level less deeply than a document may be (`SignRequest.fitsIn_of_parse`, `Seed.fitsIn_of_parse`),
and a value that is so is read (`SignRequest.parse_body_iff`, `Seed.parse_print_iff`). Therefore the
condition can be put on the document as a whole.
-/

set_option autoImplicit false

namespace BootTrust

open Json

/-! ## What lies in a record -/

/-- A place for a value that is empty, or has a value of which the brackets were allowed. -/
def ValueFits (place : Option Value) : Prop :=
  ∀ v, place = some v → v.document.FitsIn memberDepth

theorem valueFits_none : ValueFits none := fun _ h => by cases h

/-- A value that was read into a place fits it. -/
theorem valueFits_of_value {text rest : Bytes} {v : Value}
    (h : value memberDepth text = .ok (v, rest)) : ValueFits (some v) := by
  intro v' hv'
  obtain rfl := Option.some_inj.mp hv'
  exact fitsIn_of_value h

/-- Whether the value that a draft of a request has, if any, fits. -/
def SignRequest.Draft.SeedFits (draft : Draft) : Prop :=
  ValueFits draft.seed

/-- The value of a request is nested no more deeply than a member of a record may be. -/
theorem SignRequest.fitsIn_of_parse {body : Bytes} {request : SignRequest}
    (h : parse body = .ok request) : request.seed.document.FitsIn memberDepth := by
  have hslot : ∀ slot ∈ shape.slots, ∀ draft text draft' rest, Draft.SeedFits draft →
      slot.read draft text = .ok (draft', rest) → Draft.SeedFits draft' := by
    intro slot hslot draft text draft' rest hfits hread
    simp only [shape, List.mem_cons, List.not_mem_nil, or_false] at hslot
    -- the value itself is the fourth member, and the others leave it alone
    rcases hslot with rfl | rfl | rfl | rfl | rfl
    · exact Slot.of_keeps hfits hread fun _ _ hdraft _ => hdraft
    · exact Slot.of_keeps hfits hread fun _ _ hdraft _ => hdraft
    · exact Slot.of_keeps hfits hread fun _ _ hdraft _ => hdraft
    · exact Slot.of_keeps hfits hread fun _ _ _ hvalue => valueFits_of_value hvalue
    · exact Slot.of_keeps hfits hread fun _ _ hdraft _ => hdraft
  obtain ⟨draft, hfits, hfinish⟩ := Shape.parse_keeps hslot valueFits_none h
  rcases draft with ⟨_ | hash, _ | macs, _ | path, _ | v, _ | signature⟩ <;> cases hfinish
  exact hfits v rfl

/-- Whether the value that a draft of a seed has, if any, fits. -/
def Seed.Draft.ValueFits (draft : Draft) : Prop :=
  BootTrust.ValueFits draft.value

/-- So is the value of a seed. -/
theorem Seed.fitsIn_of_parse {body : Bytes} {seed : Seed} (h : shape.parse body = .ok seed) :
    seed.value.document.FitsIn memberDepth := by
  have hslot : ∀ slot ∈ shape.slots, ∀ draft text draft' rest, Draft.ValueFits draft →
      slot.read draft text = .ok (draft', rest) → Draft.ValueFits draft' := by
    intro slot hslot draft text draft' rest hfits hread
    simp only [shape, List.mem_cons, List.not_mem_nil, or_false] at hslot
    rcases hslot with rfl | rfl
    · exact Slot.of_keeps hfits hread fun _ _ _ hvalue => valueFits_of_value hvalue
    · exact Slot.of_keeps hfits hread fun _ _ hdraft _ => hdraft
  obtain ⟨draft, hfits, hfinish⟩ := Shape.parse_keeps hslot valueFits_none h
  rcases draft with ⟨_ | v, _ | signature⟩ <;> cases hfinish
  exact hfits v rfl

/-- So is the value of a seed that was loaded. -/
theorem Seed.fitsIn_of_load {files : FileSource} {p : Path} {seed : Seed}
    (h : load files p = .ok seed) : seed.value.document.FitsIn memberDepth := by
  obtain ⟨text, -, hparse, -⟩ := load_eq_ok h
  exact fitsIn_of_parse hparse

/-! ## The document as a whole -/

/-- A request fits as a whole if its value fits behind the bracket of the request. -/
theorem SignRequest.fitsIn_document_iff (request : SignRequest) :
    request.document.FitsIn greatestDepth ↔ request.seed.document.FitsIn memberDepth := by
  have htext : ∀ s, (Document.string s).FitsIn memberDepth := fun _ => trivial
  have hlist : (Document.array (request.macs.map .string)).FitsIn memberDepth := by
    intro d hd
    obtain ⟨s, -, rfl⟩ := List.mem_map.mp hd
    trivial
  constructor
  · intro h
    exact h ("Seed", request.seed.document) (by simp)
  · intro h m hm
    simp only [List.mem_cons, List.not_mem_nil, or_false] at hm
    rcases hm with rfl | rfl | rfl | rfl | rfl
    · exact htext _
    · exact hlist
    · exact htext _
    · exact h
    · exact htext _

theorem Seed.fitsIn_document_iff (seed : Seed) :
    seed.document.FitsIn greatestDepth ↔ seed.value.document.FitsIn memberDepth := by
  constructor
  · intro h
    exact h ("Seed", seed.value.document) (by simp)
  · intro h m hm
    simp only [List.mem_cons, List.not_mem_nil, or_false] at hm
    rcases hm with rfl | rfl
    · exact h
    · exact Document.fitsIn_of_isPiece rfl _

/-! ## Reading back -/

/-- A request without floating point numbers is read back if and only if its brackets are
allowed. -/
theorem SignRequest.parse_body_iff {request : SignRequest}
    (hexact : request.seed.document.isExact = true) :
    parse request.body = .ok request ↔ request.document.FitsIn greatestDepth := by
  rw [fitsIn_document_iff]
  exact ⟨fitsIn_of_parse, parse_body request hexact⟩

namespace Seed

/-- A seed without floating point numbers is read back if and only if its brackets are allowed. -/
theorem parse_print_iff {seed : Seed} (hexact : seed.value.document.isExact = true) (sp : Spacing) :
    shape.parse (seed.document.print sp 0) = .ok seed ↔ seed.document.FitsIn greatestDepth := by
  rw [fitsIn_document_iff]
  refine ⟨fitsIn_of_parse, fun hfits => ?_⟩
  refine Shape.parse_print ⟨some seed.value, some seed.signature⟩ ?_ rfl
  refine .slot rfl rfl (fun rest hends => value_print hexact hfits sp 1 sp.afterColon_blank hends)
    ?_
  refine .slot rfl rfl (fun rest _ => text_print sp 1 seed.signature rest) ?_
  exact .nil _

/-- What is loaded from a file in which a seed was written, with blanks or without. -/
theorem load_of_print {files : FileSource} {p : Path} {seed : Seed} {sp : Spacing}
    (hpath : p.isEmpty = false) (hread : files.readBytes p = .ok (seed.document.print sp 0)) :
    load files p = .ok seed
      ↔ shape.parse (seed.document.print sp 0) = .ok seed ∧ seed.value.isNull = false := by
  obtain ⟨text, hdecode, hencode⟩ := (seed.document.isText_print sp 0).decode?
  have htext : files.readText p = .ok text := by
    rw [FileSource.readText, hread]
    simp only [bind, Except.bind, hdecode]
  rw [← hencode]
  constructor
  · intro hload
    obtain ⟨text', htext', hparse, hnull⟩ := load_eq_ok hload
    obtain rfl : text = text' := Except.ok.inj (htext.symm.trans htext')
    exact ⟨hparse, hnull⟩
  · rintro ⟨hparse, hnull⟩
    rw [load, hpath, htext]
    simp only [hparse, hnull]
    rfl

end Seed

/-- Without floating point numbers a request is read back from its body exactly if its brackets are
allowed, and two such requests are told apart by their bodies. A seed is loaded from the file in
which it was written exactly if its brackets are allowed and there is a value at all. -/
theorem written_then_read :
    (∀ request : SignRequest, request.seed.document.isExact = true →
      (SignRequest.parse request.body = .ok request ↔ request.document.FitsIn greatestDepth))
    ∧ (∀ request request' : SignRequest, request.seed.document.isExact = true →
      request.document.FitsIn greatestDepth → request'.seed.document.isExact = true →
      request'.document.FitsIn greatestDepth → request.body = request'.body → request = request')
    ∧ ∀ (seed : Seed) (files : FileSource) (p : Path) (sp : Spacing),
      seed.value.document.isExact = true → p.isEmpty = false →
      files.readBytes p = .ok (seed.document.print sp 0) →
      (Seed.load files p = .ok seed
        ↔ seed.document.FitsIn greatestDepth ∧ seed.value.isNull = false) := by
  refine ⟨fun request => SignRequest.parse_body_iff, fun request request' => ?_,
    fun seed files p sp => ?_⟩
  · intro hexact hfits hexact' hfits' hbody
    have hparse := (SignRequest.parse_body_iff hexact).mpr hfits
    have hparse' := (SignRequest.parse_body_iff hexact').mpr hfits'
    rw [← hbody] at hparse'
    exact Except.ok.inj (hparse.symm.trans hparse')
  · intro hexact hpath hread
    rw [Seed.load_of_print hpath hread, Seed.parse_print_iff hexact]

/-- A file that was put into memory is read from there. -/
theorem MemoryFiles.readBytes_insert (files : MemoryFiles) (p : Path) (content : Bytes) :
    (files.insert p content).source.readBytes p = .ok content := by
  have hget : (files.insert p content).get? p = some content := by
    rw [get?_insert, if_pos rfl]
  have hwhole : (Stream.ofBytes content).readToEnd = .ok (content ++ []) := rfl
  rw [List.append_nil] at hwhole
  show ((files.insert p content).source.openFile p >>= fun s => s.readToEnd) = .ok content
  simp only [source, hget]
  exact hwhole

/-- The value of a seed with both ends of the integers, a name that has to be escaped and a bracket
in a bracket. -/
def unusualValue : Value :=
  .ofDocument (.object [
    ("\"\\\x00", .array [.number (.integer leastInteger (by decide)), .null]),
    ("", .number (.integer greatestInteger (by decide)))])

/-- A request with this value is read back, and a seed with it is loaded from a file that spreads it
over lines. -/
theorem written_then_read_unusual :
    unusualValue.document.isExact = true
    ∧ (∀ hash macs path signature,
      SignRequest.parse (SignRequest.mk hash macs path unusualValue signature).body
        = .ok (SignRequest.mk hash macs path unusualValue signature))
    ∧ (∀ macs macs',
      (SignRequest.mk "h" macs "p" unusualValue "s").body
        = (SignRequest.mk "h" macs' "p" unusualValue "s").body → macs = macs')
    ∧ Seed.load
      (MemoryFiles.empty.insert ⟨"seed.json"⟩ (Seed.mk unusualValue "\n").document.pretty).source
      ⟨"seed.json"⟩ = .ok (Seed.mk unusualValue "\n") := by
  have hexact : unusualValue.document.isExact = true := by decide +kernel
  have hfits : unusualValue.document.FitsIn memberDepth := by
    refine Document.FitsIn.normal fun m hm => ?_
    simp only [List.mem_cons, List.not_mem_nil, or_false] at hm
    rcases hm with rfl | rfl
    · intro d hd
      simp only [List.mem_cons, List.not_mem_nil, or_false] at hd
      rcases hd with rfl | rfl <;> exact Document.fitsIn_of_isPiece rfl _
    · exact Document.fitsIn_of_isPiece rfl _
  have hrequest : ∀ hash macs path signature,
      (SignRequest.mk hash macs path unusualValue signature).document.FitsIn greatestDepth :=
    fun hash macs path signature => (SignRequest.fitsIn_document_iff _).mpr hfits
  refine ⟨hexact, fun hash macs path signature => ?_, fun macs macs' hbody => ?_, ?_⟩
  · exact (written_then_read.1 _ hexact).mpr (hrequest hash macs path signature)
  · have hsame :=
      written_then_read.2.1 (.mk "h" macs "p" unusualValue "s") (.mk "h" macs' "p" unusualValue "s")
      hexact (hrequest _ _ _ _) hexact (hrequest _ _ _ _) hbody
    exact congrArg SignRequest.macs hsame
  · have hread : (MemoryFiles.empty.insert ⟨"seed.json"⟩
        (Seed.mk unusualValue "\n").document.pretty).source.readBytes ⟨"seed.json"⟩
        = .ok (Seed.mk unusualValue "\n").document.pretty := MemoryFiles.readBytes_insert _ _ _
    have hpath : (⟨"seed.json"⟩ : Path).isEmpty = false := by decide +kernel
    have hnull : unusualValue.isNull = false := rfl
    exact (written_then_read.2.2 (.mk unusualValue "\n") _ ⟨"seed.json"⟩ .indented hexact hpath
      hread).mpr ⟨(Seed.fitsIn_document_iff _).mpr hfits, hnull⟩

end BootTrust
