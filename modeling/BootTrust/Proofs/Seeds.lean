import BootTrust.Proofs.MemoryFiles
import BootTrust.Proofs.Spelling.Kept
import BootTrust.Seed
/-
How loading a seed comes out. A path that is empty, a file that is not there and bytes that
are no text are told apart in this order, and from then on the outcome is a matter of the text
(`load_source`). A text is a seed only if it is a record with both members, each written once,
and if there is a value in it. Where something is missing no seed comes out, and the error
says which of these it was.

The value of a seed may be any document, hence what the record accepts under its name is what the
reader of documents keeps of a text (`Spelling.kept?`). Of a document that was printed, without
floating point numbers and with few enough brackets, that is the document.
-/

set_option autoImplicit false

namespace BootTrust

open Json

namespace Seed

/-! ## The outcome of a text -/

/-- The seed that a text is, or what is wrong with a file that has the text. -/
def ofText (text : String) : Except (Path → SeedError) Seed :=
  match shape.parse (Utf8.encode text) with
  | .error cause => .error fun p => .parse p cause
  | .ok seed => if seed.value.isNull then .error .emptySeed else .ok seed

/-- The checks in their order, the outcome behind each of them. -/
theorem load_source (files : MemoryFiles) (p : Path) :
    (p.isEmpty = true ∧ load files.source p = .error .missingPath)
    ∨ (p.isEmpty = false ∧ files.get? p = none ∧ load files.source p = .error (.notFound p))
    ∨ (p.isEmpty = false ∧ ∃ bytes, files.get? p = some bytes ∧ Utf8.decode? bytes = none
      ∧ load files.source p = .error (.io p IoFailure.notText))
    ∨ (p.isEmpty = false ∧ ∃ bytes text, files.get? p = some bytes ∧ Utf8.decode? bytes = some text
      ∧ load files.source p = (ofText text).mapError fun failure => failure p) := by
  rcases hpath : p.isEmpty with _ | _
  · rw [load, hpath, if_neg Bool.false_ne_true, MemoryFiles.readText_source]
    rcases files.get? p with _ | bytes
    · exact Or.inr (Or.inl ⟨rfl, rfl, rfl⟩)
    rcases hdecode : Utf8.decode? bytes with _ | text
    · refine Or.inr (Or.inr (Or.inl ⟨rfl, bytes, rfl, hdecode, ?_⟩))
      simp only [hdecode]
      rfl
    · refine Or.inr (Or.inr (Or.inr ⟨rfl, bytes, text, rfl, hdecode, ?_⟩))
      simp only [hdecode, ofText]
      rcases shape.parse (Utf8.encode text) with cause | seed
      · rfl
      · simp only
        split
        · rfl
        · rfl
  · exact Or.inl ⟨rfl, by rw [load, hpath, if_pos rfl]⟩

/-! ## Records -/

/-- The places of a draft. -/
def places : List (Place Draft) := [
  { Kept := Value
    name := "Seed"
    optional := false
    reader := Json.value memberDepth
    get := Draft.value
    put := fun d v => { d with value := some v }
    accept? := fun s => (s.kept? memberDepth).map Value.ofDocument
    readsAs := readsAs_value memberDepth
    get_put := fun _ _ => rfl },
  { Kept := String
    name := "Signature"
    optional := false
    reader := text
    get := Draft.signature
    put := fun d s => { d with signature := some s }
    accept? := Spelling.text?
    readsAs := readsAs_text
    get_put := fun _ _ => rfl }]

theorem hasPlaces : shape.HasPlaces places where
  slots := rfl
  names := by decide
  apart := by
    intro p hp q hq hne draft b
    simp only [places, List.mem_cons, List.not_mem_nil, or_false] at hp hq
    rcases hp with rfl | rfl <;> rcases hq with rfl | rfl <;> first | rfl | exact absurd rfl hne
  blank := by
    intro p hp
    simp only [places, List.mem_cons, List.not_mem_nil, or_false] at hp
    rcases hp with rfl | rfl <;> rfl
  ext := by
    rintro ⟨value, signature⟩ ⟨value', signature'⟩ h
    simp only [places, List.forall_mem_cons] at h
    obtain ⟨rfl, rfl, -⟩ := h
    rfl

/-- A record is complete if both members are there. -/
theorem finish_eq_ok_iff {draft : Draft} {seed : Seed} :
    shape.finish draft = .ok seed ↔ draft = ⟨some seed.value, some seed.signature⟩ := by
  obtain ⟨_ | v, _ | t⟩ := draft
  · simp [shape]
  · simp [shape]
  · simp [shape]
  · obtain ⟨v', t'⟩ := seed
    simp [shape]

/-- An object is a seed if the names of its members are texts and each of the known names has one
value, which is kept as a document or is a text. -/
theorem parse_eq_ok_iff {file : Padded Spelling} {ms : List (Member Spelling)}
    (hms : file.inner.members? = some ms) {seed : Seed} :
    shape.parse file.bytes = .ok seed
      ↔ (∀ m ∈ ms, m.name.inner.text?.isSome = true)
        ∧ ∃ d, once? (Spelling.kept? memberDepth) (Spelling.valuesOf ms "Seed") = some (some d)
          ∧ once? Spelling.text? (Spelling.valuesOf ms "Signature") = some (some seed.signature)
          ∧ Value.ofDocument d = seed.value := by
  rw [hasPlaces.parse_eq_ok_iff hms]
  simp only [places, List.forall_mem_cons, once?_map, finish_eq_ok_iff, exists_eq_right]
  refine and_congr_right fun _ => ?_
  constructor
  · rintro ⟨hvalue, hsignature, -⟩
    obtain ⟨kept?, hkept, hd⟩ := Option.map_eq_some_iff.mp hvalue
    obtain ⟨d, rfl, hd⟩ := Option.map_eq_some_iff.mp hd
    exact ⟨d, hkept, hsignature, Option.some_inj.mp hd⟩
  · rintro ⟨d, hkept, hsignature, hd⟩
    exact ⟨by rw [hkept, ← hd]; rfl, hsignature, by simp⟩

/-- The same for an object in memory, as it is printed. -/
theorem parse_compact_eq_ok_iff {ms : List (String × Document)}
    (hms : ∀ d ∈ Document.valuesOf ms "Seed", d.isExact = true ∧ d.FitsIn memberDepth)
    {seed : Seed} :
    shape.parse (Document.object ms).compact = .ok seed
      ↔ ∃ d, Document.valuesOf ms "Seed" = [d]
        ∧ Document.valuesOf ms "Signature" = [.string seed.signature]
        ∧ Value.ofDocument d = seed.value := by
  obtain ⟨file, members, hbytes, hmembers, hprinted⟩ := Document.exists_padded_of_object .none ms
  have hread : List.Forall₂
      (fun (d : Document) (written : Spelling) => written.bytes = d.print .none 1)
      (Document.valuesOf ms "Seed") (Spelling.valuesOf members "Seed") :=
    Document.forall₂_valuesOf_of (fun hm => hm.bytes) hprinted "Seed"
  have hkept : once? (Spelling.kept? memberDepth) (Spelling.valuesOf members "Seed")
      = once? some (Document.valuesOf ms "Seed") := by
    refine (once?_congr
      (((List.forall₂_and_left _ _).mpr ⟨hms, hread⟩).imp fun d written h => ?_)).symm
    exact (Spelling.kept?_of_print h.1.1 h.1.2 h.2).symm
  have htext : once? Spelling.text? (Spelling.valuesOf members "Signature")
      = once? Document.text? (Document.valuesOf ms "Signature") :=
    (once?_congr
      ((Document.forall₂_valuesOf hprinted "Signature").imp fun _ _ h => h.text.symm)).symm
  have hsignature : ∀ t, once? Document.text? (Document.valuesOf ms "Signature") = some (some t)
      ↔ Document.valuesOf ms "Signature" = [.string t] := by
    intro t
    simp only [once?_eq_some_some_iff, Document.text?_eq_some_iff, exists_eq_right]
  rw [Document.compact, ← hbytes, parse_eq_ok_iff hmembers,
    and_iff_right (Document.isSome_of_isPrintedAs hprinted), hkept, htext]
  simp only [hsignature, once?_eq_some_some_iff, Option.some_inj, exists_eq_right]

/-! ## Loading -/

/-- A text is not at fault for what happens before it is there. -/
theorem mapError_ofText_ne (text : String) (p : Path) :
    let result := (ofText text).mapError fun failure => failure p
    result ≠ .error .missingPath ∧ (∀ q, result ≠ .error (.notFound q))
    ∧ ∀ q cause, result ≠ .error (.io q cause) := by
  rw [ofText]
  rcases shape.parse (Utf8.encode text) with cause | seed
  · simp [Except.mapError]
  · simp only
    split
    · simp [Except.mapError]
    · simp [Except.mapError]

/-- Which of the outcomes it is, by what there is at the path: the first that applies, with the path
in question. Of a file with a text in it nothing counts but the text. -/
structure IsClassified (files : MemoryFiles) (p : Path) : Prop where
  missing : load files.source p = .error .missingPath ↔ p.isEmpty = true
  absent : ∀ q, load files.source p = .error (.notFound q)
    ↔ p.isEmpty = false ∧ files.get? p = none ∧ p = q
  unreadable : ∀ q, (∃ cause, load files.source p = .error (.io q cause))
    ↔ p.isEmpty = false ∧ (∃ bytes, files.get? p = some bytes ∧ Utf8.decode? bytes = none) ∧ p = q
  readable : p.isEmpty = false → ∀ bytes text, files.get? p = some bytes →
    Utf8.decode? bytes = some text →
    load files.source p = (ofText text).mapError fun failure => failure p
  present : ∀ seed, load files.source p = .ok seed → seed.value.isNull = false

theorem isClassified (files : MemoryFiles) (p : Path) : IsClassified files p := by
  have hpresent : ∀ seed, load files.source p = .ok seed → seed.value.isNull = false := by
    intro seed hseed
    obtain ⟨-, -, -, hnull⟩ := load_eq_ok hseed
    exact hnull
  rcases load_source files p with ⟨hpath, hload⟩ | ⟨hpath, hget, hload⟩
    | ⟨hpath, bytes, hget, hdecode, hload⟩
    | ⟨hpath, bytes, text, hget, hdecode, hload⟩
  · exact ⟨by simp [hload, hpath], by simp [hload, hpath], by simp [hload, hpath],
      by simp [hpath], hpresent⟩
  · exact ⟨by simp [hload, hpath], by simp [hload, hpath, hget], by simp [hload, hget],
      by simp [hget], hpresent⟩
  · refine ⟨by simp [hload, hpath], by simp [hload, hget], by simp [hload, hpath, hget, hdecode],
      fun _ bytes' text hget' hdecode' => ?_, hpresent⟩
    obtain rfl : bytes = bytes' := Option.some_inj.mp (hget.symm.trans hget')
    cases hdecode.symm.trans hdecode'
  · obtain ⟨hmissing, habsent, hunreadable⟩ := mapError_ofText_ne text p
    rw [← hload] at hmissing habsent hunreadable
    refine ⟨by simp [hmissing, hpath], by simp [habsent, hget],
      by simp [hunreadable, hget, hdecode], fun _ bytes' text' hget' hdecode' => ?_, hpresent⟩
    obtain rfl : bytes = bytes' := Option.some_inj.mp (hget.symm.trans hget')
    obtain rfl : text = text' := Option.some_inj.mp (hdecode.symm.trans hdecode')
    exact hload

/-- Whether a file with an object in it is loaded as the members have it: as the one value and the
one signature, if both are there once, the signature is a text and the value is not `null`. If only
the last of this fails, the seed is empty, and if anything else does, the text is no seed. -/
structure IsLoadedAs (result : Except SeedError Seed) (p : Path)
    (ms : List (String × Document)) : Prop where
  accepted : ∀ seed, result = .ok seed ↔ ∃ d t, Document.valuesOf ms "Seed" = [d]
    ∧ Document.valuesOf ms "Signature" = [.string t] ∧ d ≠ .null ∧ seed = ⟨.ofDocument d, t⟩
  empty : result = .error (.emptySeed p)
    ↔ ∃ t, Document.valuesOf ms "Seed" = [.null] ∧ Document.valuesOf ms "Signature" = [.string t]
  refused : (∃ cause, result = .error (.parse p cause))
    ↔ ¬ ∃ d t, Document.valuesOf ms "Seed" = [d] ∧ Document.valuesOf ms "Signature" = [.string t]

theorem isNull_ofDocument {d : Document} : (Value.ofDocument d).isNull = true ↔ d = .null := by
  cases d <;> simp [Value.ofDocument, Value.isNull, Document.normal]

theorem isLoadedAs {files : MemoryFiles} {p : Path} {ms : List (String × Document)}
    (hpath : p.isEmpty = false)
    (hms : ∀ d ∈ Document.valuesOf ms "Seed", d.isExact = true ∧ d.FitsIn memberDepth)
    (hget : files.get? p = some (Document.object ms).compact) :
    IsLoadedAs (load files.source p) p ms := by
  obtain ⟨text, hdecode, hencode⟩ := ((Document.object ms).isText_print .none 0).decode?
  have hload := (isClassified files p).readable hpath _ text hget hdecode
  have hparse : ∀ seed, shape.parse (Utf8.encode text) = .ok seed
      ↔ ∃ d, Document.valuesOf ms "Seed" = [d]
        ∧ Document.valuesOf ms "Signature" = [.string seed.signature]
        ∧ Value.ofDocument d = seed.value := by
    intro seed
    rw [hencode]
    exact parse_compact_eq_ok_iff hms
  rw [hload, ofText]
  rcases hresult : shape.parse (Utf8.encode text) with cause | seed
  -- the text is no seed, and any one value with a signature would have made it one
  · have hnone : ∀ d t, Document.valuesOf ms "Seed" = [d] →
        Document.valuesOf ms "Signature" ≠ [.string t] := by
      intro d t hvalue hsignature
      have hok := (hparse ⟨.ofDocument d, t⟩).mpr ⟨d, hvalue, hsignature, rfl⟩
      rw [hresult] at hok
      cases hok
    refine ⟨fun seed => ?_, ?_, ?_⟩
    · simp only [Except.mapError, reduceCtorEq, false_iff]
      rintro ⟨d, t, hvalue, hsignature, -⟩
      exact hnone d t hvalue hsignature
    · simp only [Except.mapError, Except.error.injEq, reduceCtorEq, false_iff]
      rintro ⟨t, hvalue, hsignature⟩
      exact hnone .null t hvalue hsignature
    · simp only [Except.mapError, Except.error.injEq, SeedError.parse.injEq, true_and,
        exists_eq', true_iff]
      rintro ⟨d, t, hvalue, hsignature⟩
      exact hnone d t hvalue hsignature
  -- there is one value, and it remains to be seen whether it is `null`
  · obtain ⟨d, hvalue, hsignature, hd⟩ := (hparse seed).mp hresult
    obtain ⟨v, t⟩ := seed
    obtain rfl : Value.ofDocument d = v := hd
    by_cases hnull : d = .null
    · simp only [isNull_ofDocument.mpr hnull, if_true]
      subst hnull
      refine ⟨fun seed => ?_, ?_, ?_⟩
      · simp [Except.mapError, hvalue]
      · simp [Except.mapError, hvalue, hsignature]
      · simp [Except.mapError, hvalue, hsignature]
    · simp only [mt isNull_ofDocument.mp hnull]
      refine ⟨fun seed => ?_, ?_, ?_⟩
      · simp [Except.mapError, hvalue, hsignature, hnull, eq_comm]
      · simp [Except.mapError, hvalue, hnull]
      · simp [Except.mapError, hvalue, hsignature]

/-- Loading fails closed, in the class that what there is at the path belongs to. A file with an
object that was printed is loaded as its members have it, in whatever order they are and whatever
else there is among them. -/
theorem load_fails_closed :
    (∀ (files : MemoryFiles) (p : Path), IsClassified files p)
    ∧ ∀ (files : MemoryFiles) (p : Path) (ms : List (String × Document)), p.isEmpty = false →
      (∀ d ∈ Document.valuesOf ms "Seed", d.isExact = true ∧ d.FitsIn memberDepth) →
      files.get? p = some (Document.object ms).compact → IsLoadedAs (load files.source p) p ms :=
  ⟨isClassified, fun _ _ _ hpath hms hget => isLoadedAs hpath hms hget⟩

/-- No path, no file and bytes that are no text; a seed behind its signature and behind a member
that holds both names; the same without a value, with a second signature, and with a number as
signature. -/
theorem load_fails_closed_unusual :
    let p : Path := ⟨"seed.json"⟩
    let files (content : Bytes) := MemoryFiles.empty.insert p content
    let one := Document.number (.integer 1 (by decide))
    let signature := ("Signature", Document.string "c2ln")
    let note := ("note", Document.object [("Seed", .null), ("Signature", .number (.real 0.5))])
    let seed := ("Seed", Document.array [one, .null])
    load (files []).source ⟨""⟩ = .error .missingPath
      ∧ load MemoryFiles.empty.source p = .error (.notFound p)
      ∧ (∃ cause, load (files [0xFF]).source p = .error (.io p cause))
      ∧ load (files (Document.object [signature, note, seed]).compact).source p
        = .ok ⟨.ofDocument (.array [one, .null]), "c2ln"⟩
      ∧ load (files (Document.object [signature, note, ("Seed", .null)]).compact).source p
        = .error (.emptySeed p)
      ∧ (∃ cause, load (files (Document.object [signature, seed, signature]).compact).source p
        = .error (.parse p cause))
      ∧ ∃ cause, load (files (Document.object [seed, ("Signature", one)]).compact).source p
        = .error (.parse p cause) := by
  intro p files one signature note seed
  obtain ⟨hclass, hprinted⟩ := load_fails_closed
  have hget : ∀ content, (files content).get? p = some content := fun content => by
    rw [MemoryFiles.get?_insert, if_pos rfl]
  have hundecoded : Utf8.decode? [0xFF] = none := by
    rw [Utf8.decode?, Utf8.decodePrefix]
    rfl
  have hfits : ∀ d ∈ [Document.array [one, .null]], d.isExact = true ∧ d.FitsIn memberDepth := by
    simp [Document.isExact, Document.itemsExact, one, Number.isInteger, memberDepth, greatestDepth,
      Document.FitsIn]
  have hnull : ∀ d ∈ [Document.null], d.isExact = true ∧ d.FitsIn memberDepth := by
    simp [Document.isExact, Document.FitsIn]
  refine ⟨(hclass _ _).missing.mpr (by decide), ((hclass _ p).absent p).mpr ⟨by decide, rfl, rfl⟩,
    ((hclass _ p).unreadable p).mpr ⟨by decide, ⟨_, hget _, hundecoded⟩, rfl⟩, ?_, ?_, ?_, ?_⟩
  · exact ((hprinted _ p [signature, note, seed] (by decide) hfits (hget _)).accepted _).mpr
      ⟨_, _, rfl, rfl, by simp, rfl⟩
  · exact (hprinted _ p [signature, note, ("Seed", .null)] (by decide) hnull (hget _)).empty.mpr
      ⟨_, rfl, rfl⟩
  · refine (hprinted _ p [signature, seed, signature] (by decide) hfits (hget _)).refused.mpr ?_
    rintro ⟨d, t, -, htwice⟩
    exact absurd (congrArg List.length htwice) (by simp [Document.valuesOf, signature, seed])
  · refine (hprinted _ p [seed, ("Signature", one)] (by decide) hfits (hget _)).refused.mpr ?_
    rintro ⟨d, t, -, hnumber⟩
    simp [Document.valuesOf, seed, one] at hnumber

end Seed

end BootTrust
