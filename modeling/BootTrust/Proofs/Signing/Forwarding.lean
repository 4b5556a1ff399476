import BootTrust.Proofs.Accepted.Records
import BootTrust.Proofs.Hashing
import BootTrust.Proofs.Spelling.Typed
import BootTrust.Signing.Client
/-
What a seed file says is what the signing service is shown. The member `Seed` of the file goes
through memory: it is read into a document, brought into its normal form and printed again, and none
of this changes what it denotes. The file may be written in any way that JSON allows, with members
that nobody asked for or as an array, and whatever is accepted is written in one of these ways
(`Seed.exists_padded_of_load`).

The condition is on the numbers of the member alone. An integer that does not fit 64 bits is kept as
a floating point number, and what is printed for it is another integer.
-/

set_option autoImplicit false

namespace BootTrust

open Json

namespace Json

/-! ## Members as they are written -/

theorem Spelling.member?_cons (m : Member Spelling) (more : List (Member Spelling))
    (name : String) :
    member? (m :: more) name
      = if m.name.inner.text? = some name then some m.value.inner else member? more name := by
  rw [member?, List.find?_cons]
  by_cases h : m.name.inner.text? = some name
  · simp only [h, decide_true, if_true, Option.map_some]
  · simp only [h, decide_false, if_false]
    rfl

/-- Whether a value is what a text denotes, with all its numbers kept exactly. -/
structure Value.IsMeant (v : Value) (s : Spelling) : Prop where
  meaning : s.meaning? = some v.document.meaning
  exact : v.document.everyNumber Number.isKeptExactly = true

theorem value_spelled {depth : Nat} (blanks : Blanks) {s : Spelling} {v : Value} {rest left : Bytes}
    (hfit : s.everyNumber Literal.fitsWord = true) (hends : EndsValue rest)
    (h : value depth (blanks.bytes ++ (s.bytes ++ rest)) = .ok (v, left)) :
    left = rest ∧ v.IsMeant s := by
  obtain ⟨⟨d, left'⟩, hread, h⟩ := Steps.bind_eq_ok_iff.mp h
  cases h
  rw [document_blanks depth blanks.areBlank] at hread
  obtain ⟨hleft, hmeaning, hexact⟩ := readsAsMeant depth s hfit hends hread
  refine ⟨hleft, ?_, Document.everyNumber_normal d hexact⟩
  rw [hmeaning, Value.ofDocument, Document.meaning_normal]

end Json

/-! ## Seeds -/

namespace Seed

theorem slot?_eq_none {name : String} (hseed : name ≠ "Seed") (hsignature : name ≠ "Signature") :
    shape.slot? name = none := by
  rw [Shape.slot?, List.find?_eq_none]
  intro slot hslot
  simp only [shape, List.mem_cons, List.not_mem_nil, or_false] at hslot
  rcases hslot with rfl | rfl
  · simpa [Slot.of] using hseed.symm
  · simpa [Slot.of] using hsignature.symm

/-- What is known of a draft when some members are still to come: the first of them called `Seed`
will be its value, or it has been read and is the value. -/
def Draft.Expects (part? : Option Spelling) (more : List (Member Spelling))
    (draft : Draft) : Prop :=
  match draft.value with
  | none => Spelling.member? more "Seed" = part?
  | some v => ∃ part, part? = some part ∧ v.IsMeant part

theorem readMember_spelled {part? : Option Spelling}
    (hfit : ∀ part ∈ part?, part.everyNumber Literal.fitsWord = true)
    (m : Member Spelling) (more : List (Member Spelling)) (name : String) (draft draft' : Draft)
    (rest left : Bytes) (hdraft : draft.Expects part? (m :: more)) (hends : EndsValue rest)
    (htext : m.name.inner.text? = some name)
    (h : shape.readMember draft name (m.bytesBehind rest) = .ok (draft', left)) :
    left = rest ∧ draft'.Expects part? more := by
  by_cases hseed : name = "Seed"
  · subst hseed
    have hslot : shape.slot? "Seed" = some (.of "Seed" false (Json.value memberDepth) Draft.value
        fun d v => { d with value := some v }) := rfl
    rw [Draft.Expects, Spelling.member?_cons, if_pos htext] at hdraft
    rw [Shape.readMember, hslot] at h
    rcases hvalue : draft.value with _ | v
    · rw [hvalue] at hdraft
      simp only [Slot.of, hvalue, Option.isSome_none, Bool.false_eq_true, if_false] at h
      obtain ⟨behind, hcolon, h⟩ := Steps.bind_eq_ok_iff.mp (stopped_eq_ok_iff.mp h)
      rw [colon_bytesBehind] at hcolon
      obtain rfl := Except.ok.inj hcolon
      obtain ⟨⟨v, left'⟩, hread, h⟩ := Steps.bind_eq_ok_iff.mp h
      obtain ⟨hleft, hmeant⟩ := value_spelled _ (hfit _ hdraft.symm) hends hread
      cases h
      exact ⟨hleft, _, hdraft.symm, hmeant⟩
    -- a second one is refused
    · simp only [Slot.of, hvalue, Option.isSome_some, if_true] at h
      cases h
  have hmore : draft.Expects part? more := by
    rw [Draft.Expects, Spelling.member?_cons, htext, if_neg (by simpa using hseed)] at hdraft
    exact hdraft
  by_cases hsignature : name = "Signature"
  · subst hsignature
    have hslot : shape.slot? "Signature" = some (.of "Signature" false Json.text Draft.signature
        fun d s => { d with signature := some s }) := rfl
    rw [Shape.readMember, hslot] at h
    simp only at h
    split at h
    · cases h
    · obtain ⟨behind, hcolon, h⟩ := Steps.bind_eq_ok_iff.mp (stopped_eq_ok_iff.mp h)
      rw [colon_bytesBehind] at hcolon
      obtain rfl := Except.ok.inj hcolon
      obtain ⟨⟨t, left'⟩, hread, h⟩ := Steps.bind_eq_ok_iff.mp h
      cases h
      exact ⟨((readsAs_text _ _ hends).mp hread).2, hmore⟩
  · rw [Shape.readMember, slot?_eq_none hseed hsignature] at h
    obtain ⟨behind, hcolon, h⟩ := Steps.bind_eq_ok_iff.mp (stopped_eq_ok_iff.mp h)
    rw [colon_bytesBehind] at hcolon
    obtain rfl := Except.ok.inj hcolon
    rw [skipValue_spelled _ _ hends] at h
    cases h
    exact ⟨rfl, hmore⟩

/-- A seed that is written as an array has its value first. -/
theorem readItems_spelled {first : Padded Spelling} {more : List (Padded Spelling)}
    {rest left : Bytes} {draft : Draft} (hfit : first.inner.everyNumber Literal.fitsWord = true)
    (h : shape.readItems 0 shape.slots shape.blank (first.before.bytes ++ (first.inner.bytes
      ++ (first.after.bytes ++ (Spelling.moreItems more ++ rest)))) = .ok (draft, left)) :
    ∃ v, draft.value = some v ∧ v.IsMeant first.inner := by
  have hends := first.after.endsValue (Spelling.endsValue_moreItems more rest)
  have hskip := Spelling.skipBlanks_bytes first.before first.inner
    (first.after.bytes ++ (Spelling.moreItems more ++ rest))
  obtain ⟨b, body, hbytes, -, hclose⟩ := first.inner.exists_first_byte
  have hfirst : first.inner.bytes ++ (first.after.bytes ++ (Spelling.moreItems more ++ rest))
      = b :: (body ++ (first.after.bytes ++ (Spelling.moreItems more ++ rest))) := by
    rw [hbytes, List.cons_append]
  have hslots : shape.slots = [.of "Seed" false (Json.value memberDepth) Draft.value
      fun d v => { d with value := some v }, .of "Signature" false Json.text Draft.signature
      fun d s => { d with signature := some s }] := rfl
  rw [hslots, Shape.readItems, hskip, hfirst] at h
  simp only [if_neg hclose, if_true] at h
  obtain ⟨text, htext, h⟩ := Steps.bind_eq_ok_iff.mp h
  cases htext
  obtain ⟨⟨draft₁, left₁⟩, hread, h⟩ := Steps.bind_eq_ok_iff.mp h
  obtain ⟨⟨v, left₂⟩, hvalue, hdraft⟩ := Steps.bind_eq_ok_iff.mp (stopped_eq_ok_iff.mp hread)
  cases hdraft
  rw [← hfirst] at hvalue
  obtain ⟨-, hmeant⟩ := value_spelled .none hfit hends hvalue
  refine ⟨v, ?_, hmeant⟩
  -- the signature that follows leaves the value alone
  refine Shape.readItems_keeps (fun draft => draft.value = some v) ?_ rfl h
  intro slot hslot draft text draft' rest hdraft hread
  obtain rfl := List.mem_singleton.mp hslot
  obtain ⟨_, -, hread⟩ := Steps.bind_eq_ok_iff.mp hread
  cases hread
  exact hdraft

/-- What is read of a seed file has the value that stands in its member `Seed`, and no value if
there is no such member. -/
theorem readDraft_spelled {file : Padded Spelling} {draft : Draft} {left : Bytes}
    (hfit : ∀ part ∈ file.inner.field? "Seed" 0, part.everyNumber Literal.fitsWord = true)
    (h : shape.readDraft file.bytes = .ok (draft, left)) :
    draft.Expects (file.inner.field? "Seed" 0) [] := by
  obtain ⟨before, s, after⟩ := file
  have hends : EndsValue after.bytes := by
    have h := after.endsValue endsValue_nil
    rwa [List.append_nil] at h
  have hmismatch : s.head ≠ openObject → s.head ≠ openArray → False := by
    intro hobject harray
    obtain ⟨body, hbytes⟩ := s.bytes_eq_cons
    rw [Padded.bytes, Shape.readDraft, Spelling.skipBlanks_bytes, hbytes] at h
    simp only [List.cons_append, if_neg hobject, if_neg harray] at h
    cases h
  cases s with
  | object first more =>
    have hstart : shape.blank.Expects (Spelling.member? (first :: more) "Seed") (first :: more) :=
      rfl
    rw [Padded.bytes, Shape.readDraft, skipBlanks_append before.areBlank, Spelling.object_append,
      skipBlanks_cons (by decide)] at h
    simp only [if_true] at h
    split at h
    · cases h
    · next draft' left' hmembers =>
      cases h
      exact (members_spelled _ (readMember_spelled hfit) hstart hmembers).2
  | emptyObject inside =>
    rw [Padded.bytes, Shape.readDraft, skipBlanks_append before.areBlank,
      Spelling.emptyObject_append, skipBlanks_cons (by decide)] at h
    simp only [if_true] at h
    rw [members, skipBlanks_append inside.areBlank, skipBlanks_cons (by decide)] at h
    cases h
    rfl
  | array first more =>
    have hopen : ¬ openArray = openObject := by decide
    rw [Padded.bytes, Shape.readDraft, skipBlanks_append before.areBlank, Spelling.array_append,
      skipBlanks_cons (by decide)] at h
    simp only [if_neg hopen, if_true] at h
    split at h
    · cases h
    · next draft' left' hitems =>
      obtain ⟨rest, -, h⟩ := Steps.bind_eq_ok_iff.mp h
      cases h
      obtain ⟨v, hvalue, hmeant⟩ := readItems_spelled (hfit _ rfl) hitems
      rw [Draft.Expects, hvalue]
      exact ⟨_, rfl, hmeant⟩
  | emptyArray inside =>
    -- an array needs both of its items
    have hopen : ¬ openArray = openObject := by decide
    rw [Padded.bytes, Shape.readDraft, skipBlanks_append before.areBlank,
      Spelling.emptyArray_append, skipBlanks_cons (by decide)] at h
    simp only [if_neg hopen, if_true] at h
    rw [shape, Shape.readItems, skipBlanks_append inside.areBlank, skipBlanks_cons (by decide)] at h
    cases h
  | string q => exact (hmismatch (show quoteByte ≠ _ by decide) (show quoteByte ≠ _ by decide)).elim
  | number l =>
    have hne : (Spelling.number l).head ≠ openObject ∧ (Spelling.number l).head ≠ openArray := by
      rcases Spelling.head_number l with hsign | hdigit
      · rw [hsign]
        exact ⟨by decide, by decide⟩
      · refine ⟨fun h => ?_, fun h => ?_⟩
        · rw [h] at hdigit
          exact absurd hdigit (by decide)
        · rw [h] at hdigit
          exact absurd hdigit (by decide)
    exact (hmismatch hne.1 hne.2).elim
  | bool b => cases b <;> exact (hmismatch (by decide) (by decide)).elim
  | null => exact (hmismatch (by decide) (by decide)).elim

/-- A seed that was loaded has the value that its file says, which then is there. -/
theorem isMeant_of_load {files : FileSource} {p : Path} {text : String} {seed : Seed}
    {file : Padded Spelling} (htext : files.readText p = .ok text) (hload : load files p = .ok seed)
    (hfile : file.bytes = Utf8.encode text)
    (hfit : ∀ part ∈ file.inner.field? "Seed" 0, part.everyNumber Literal.fitsWord = true) :
    ∃ part, file.inner.field? "Seed" 0 = some part ∧ seed.value.IsMeant part := by
  obtain ⟨text', htext', hparse, -⟩ := load_eq_ok hload
  obtain rfl := Except.ok.inj (htext.symm.trans htext')
  obtain ⟨draft, hdraft, hfinish⟩ := (shape.parse_eq_ok_iff).mp hparse
  obtain ⟨rest, hread, -⟩ := readAll_eq_ok hdraft
  rw [← hfile] at hread
  have hexpects := readDraft_spelled hfit hread
  rcases draft with ⟨_ | v, _ | signature⟩
  · cases hfinish
  · cases hfinish
  · cases hfinish
  · cases hfinish
    exact hexpects

/-- A file from which a seed was loaded is written as JSON. -/
theorem exists_padded_of_load {files : FileSource} {p : Path} {text : String} {seed : Seed}
    (htext : files.readText p = .ok text) (hload : load files p = .ok seed) :
    ∃ file : Padded Spelling, file.bytes = Utf8.encode text := by
  obtain ⟨text', htext', hparse, -⟩ := load_eq_ok hload
  obtain rfl := Except.ok.inj (htext.symm.trans htext')
  refine Shape.exists_padded ?_ (.encode text) hparse
  intro slot hslot
  simp only [shape, List.mem_cons, List.not_mem_nil, or_false] at hslot
  rcases hslot with rfl | rfl
  · exact Slot.takesValue_of begins_of_value
  · exact Slot.takesValue_of begins_of_text

end Seed

/-! ## Requests -/

/-- Whether a text is an object that has under a name what another text denotes. -/
def Json.Spelling.Shows (body : Spelling) (name : String) (part : Spelling) : Prop :=
  ∃ (members : String → Option Meaning) (meaning : Meaning),
    body.meaning? = some (.object members) ∧ members name = some meaning
    ∧ part.meaning? = some meaning

namespace SignRequest

/-- A request is an object with its value as the member `Seed`. -/
theorem meaning_document (request : SignRequest) :
    ∃ members, request.document.meaning = .object members
    ∧ members "Seed" = some request.seed.document.meaning :=
  ⟨_, rfl, rfl⟩

/-- All numbers of a request are in its value. -/
theorem everyNumber_document {request : SignRequest} {p : Number → Bool}
    (h : request.seed.document.everyNumber p = true) : request.document.everyNumber p = true := by
  have hmacs : (Document.array (request.macs.map .string)).everyNumber p = true := by
    refine Document.everyItem_iff.mpr fun d hd => ?_
    obtain ⟨mac, -, rfl⟩ := List.mem_map.mp hd
    rfl
  refine Document.everyMember_iff.mpr fun m hm => ?_
  simp only [List.mem_cons, List.not_mem_nil, or_false] at hm
  rcases hm with rfl | rfl | rfl | rfl | rfl
  · rfl
  · exact hmacs
  · rfl
  · exact h
  · rfl

/-- What a seed file has as its member `Seed` is what the signing service is shown, whoever asks for
what. A file that is accepted is written as JSON. However it is written, it has such a member, and
the body that is posted is a text with an equal one, if all numbers of the member are integers of 64
bits. -/
theorem seed_forwarded {σ : Type} {files : FileSource} {p : Path} {text : String} {seed : Seed}
    (htext : files.readText p = .ok text) (hload : Seed.load files p = .ok seed) (hash : String)
    (macs : List String) (path endpoint : String) (transport : Transport σ) (state : σ) :
    (∃ file : Padded Spelling, file.bytes = Utf8.encode text)
    ∧ ∀ file : Padded Spelling, file.bytes = Utf8.encode text →
      (∀ part ∈ file.inner.field? "Seed" 0, part.everyNumber Literal.fitsWord = true) →
      ∃ part, ∃ body : Spelling, file.inner.field? "Seed" 0 = some part
        ∧ ((ofSeed hash macs path seed).sign endpoint transport state).posts
          = [⟨endpoint, body.bytes⟩]
        ∧ body.Shows "Seed" part := by
  refine ⟨Seed.exists_padded_of_load htext hload, fun file hfile hfit => ?_⟩
  obtain ⟨part, hpart, hmeant⟩ := Seed.isMeant_of_load htext hload hfile hfit
  obtain ⟨body, hbytes, hmeaning⟩ :=
    Document.exists_spelling .none 0 (ofSeed hash macs path seed).document
    (everyNumber_document hmeant.exact)
  obtain ⟨members, hobject, hseed⟩ := (ofSeed hash macs path seed).meaning_document
  refine ⟨part, body, hpart, ?_, members, _, ?_, hseed, hmeant.meaning⟩
  · rw [hbytes]
    rfl
  · rw [hmeaning, hobject]

/-! Two seed files in memory. One is written with escapes, a name twice, negative zero and a member
that nobody asked for; the other has an integer that does not fit 64 bits. -/

/-- A seed file of which the content is known. -/
def seedFile (text : String) : MemoryFiles :=
  MemoryFiles.empty.insert ⟨"seed.json"⟩ (Utf8.encode text)

theorem readText_seedFile (text : String) :
    (seedFile text).source.readText ⟨"seed.json"⟩ = .ok text := by
  have hget : (seedFile text).get? ⟨"seed.json"⟩ = some (Utf8.encode text) := by
    rw [seedFile, MemoryFiles.get?_insert, if_pos rfl]
  rw [FileSource.readText, MemoryFiles.readBytes_source, hget]
  simp only [bind, Except.bind, Utf8.decode?_encode]

theorem load_seedFile {text : String} {seed : Seed}
    (hparse : Seed.shape.parse (Utf8.encode text) = .ok seed) (hthere : seed.value.isNull = false) :
    Seed.load (seedFile text).source ⟨"seed.json"⟩ = .ok seed := by
  have hpath : (⟨"seed.json"⟩ : Path).isEmpty = false := by decide
  rw [Seed.load, hpath, if_neg Bool.false_ne_true, readText_seedFile]
  simp only [hparse, hthere, Bool.false_eq_true, if_false]

def bareItem (s : Spelling) : Padded Spelling :=
  ⟨.none, s, .none⟩

def bareMember (name : Quoted) (s : Spelling) : Member Spelling :=
  ⟨⟨.none, name, .none⟩, bareItem s⟩

/-- An object that has the list `[-0,18446744073709551615,"\n"]` as the second of two members with
one name. -/
def escapedSeed : Spelling :=
  .object (bareMember (.ofText "k") .null) [bareMember (.ofText "k")
    (.array (bareItem (.number (.ofDigits true (.ofNats 0 []) (by decide)))) [
      bareItem (.number (.ofDigits false
        (.ofNats 1 [8, 4, 4, 6, 7, 4, 4, 0, 7, 3, 7, 0, 9, 5, 5, 1, 6, 1, 5]) (by decide))),
      bareItem (.string [.shorthand .lineFeed])])]

/-- A file with this seed. The first letter of the name is escaped. -/
def escapedFile : Padded Spelling :=
  bareItem (.object (bareMember (.ofText "n")
      (.number ⟨false, .ofNats 1 [], some (.ofNats 5 []), some ⟨false, none, .ofNats 3 []⟩,
        by decide⟩)) [
    bareMember (.unit (.ofNat 0x53) :: Quoted.ofText "eed") escapedSeed,
    bareMember (.ofText "Signature") (.string (.ofText "s"))])

def escapedText : String :=
  "\x7b\"n\":1.5e3,\"\\u0053eed\":\x7b\"k\":null,\"k\":[-0,18446744073709551615,\"\\n\"]\x7d,"
    ++ "\"Signature\":\"s\"\x7d"

theorem bytes_escapedFile : escapedFile.bytes = Utf8.encode escapedText := by
  decide +kernel

theorem field?_escapedFile : escapedFile.inner.field? "Seed" 0 = some escapedSeed := by
  rw [escapedFile, bareItem, Spelling.field?, Spelling.member?_cons, if_neg (by decide),
    Spelling.member?_cons, if_pos (by decide)]
  rfl

/-- The escaped seed is forwarded. -/
theorem seed_forwarded_escaped :
    ∃ seed, Seed.load (seedFile escapedText).source ⟨"seed.json"⟩ = .ok seed
    ∧ ∃ body : Spelling,
      ((ofSeed "h" ["m"] "p" seed).sign "http://sign" .queue []).posts
        = [⟨"http://sign", body.bytes⟩]
      ∧ body.Shows "Seed" escapedSeed := by
  have hparse : (Seed.shape.parse escapedFile.bytes).toOption.map (·.value.isNull)
      = some false := by
    decide +kernel
  have hfit : ∀ part ∈ escapedFile.inner.field? "Seed" 0,
      part.everyNumber Literal.fitsWord = true := by
    intro part hpart
    rw [field?_escapedFile] at hpart
    obtain rfl := Option.some_inj.mp hpart
    decide
  obtain ⟨seed, hseed, hthere⟩ := Steps.toOption_map_eq_some_iff.mp hparse
  rw [bytes_escapedFile] at hseed
  have hload := load_seedFile hseed hthere
  obtain ⟨-, hforwarded⟩ :=
    seed_forwarded (readText_seedFile escapedText) hload "h" ["m"] "p" "http://sign" .queue []
  obtain ⟨part, body, hpart, hposts, hshows⟩ := hforwarded escapedFile bytes_escapedFile hfit
  obtain rfl := Option.some_inj.mp (field?_escapedFile.symm.trans hpart)
  exact ⟨seed, hload, body, hposts, hshows⟩

/-- One more than the greatest integer of 64 bits. -/
def largeSeed : Spelling :=
  .number (.ofDigits false
    (.ofNats 1 [8, 4, 4, 6, 7, 4, 4, 0, 7, 3, 7, 0, 9, 5, 5, 1, 6, 1, 6]) (by decide))

/-- A file with this seed. -/
def largeFile : Padded Spelling :=
  bareItem (.object (bareMember (.ofText "Seed") largeSeed)
    [bareMember (.ofText "Signature") (.string (.ofText "s"))])

def largeText : String :=
  "\x7b\"Seed\":18446744073709551616,\"Signature\":\"s\"\x7d"

/-- A body with the number `1.8446744073709552e+19` in the place of the seed. -/
def roundedBody : Spelling :=
  .object (bareMember (.ofText "Hash") (.string (.ofText "h"))) [
    bareMember (.ofText "Mac") (.array (bareItem (.string (.ofText "m"))) []),
    bareMember (.ofText "Path") (.string (.ofText "p")),
    bareMember (.ofText "Seed") (.number ⟨false, .ofNats 1 [],
      some (.ofNats 8 [4, 4, 6, 7, 4, 4, 0, 7, 3, 7, 0, 9, 5, 5, 2]),
      some ⟨false, some false, .ofNats 1 [9]⟩, by decide⟩),
    bareMember (.ofText "Signature") (.string (.ofText "s"))]

/-- An integer that does not fit 64 bits is not forwarded: the body that is posted is a text with
another number. -/
theorem seed_not_forwarded :
    ∃ seed, Seed.load (seedFile largeText).source ⟨"seed.json"⟩ = .ok seed
    ∧ largeFile.bytes = Utf8.encode largeText
    ∧ largeFile.inner.field? "Seed" 0 = some largeSeed
    ∧ largeSeed.everyNumber Literal.isInteger = true
    ∧ ((ofSeed "h" ["m"] "p" seed).sign "http://sign" .queue []).posts
        = [⟨"http://sign", roundedBody.bytes⟩]
    ∧ ¬ roundedBody.Shows "Seed" largeSeed := by
  have hbytes : largeFile.bytes = Utf8.encode largeText := by decide +kernel
  have hparse : (Seed.shape.parse largeFile.bytes).toOption.map
      (fun seed => (seed.value.isNull, (ofSeed "h" ["m"] "p" seed).body))
        = some (false, roundedBody.bytes) := by
    decide +kernel
  obtain ⟨seed, hseed, hseen⟩ := Steps.toOption_map_eq_some_iff.mp hparse
  rw [hbytes] at hseed
  obtain ⟨hthere, hbody⟩ := Prod.mk.inj hseen
  refine ⟨seed, load_seedFile hseed hthere, hbytes, ?_, rfl, ?_, ?_⟩
  · rw [largeFile, bareItem, Spelling.field?, Spelling.member?_cons, bareMember,
      if_pos (Quoted.text?_ofText "Seed")]
    rfl
  · rw [← hbody]
    rfl
  · rintro ⟨members, meaning, hbody, hmember, hpart⟩
    obtain rfl := Option.some_inj.mp hpart
    simp only [roundedBody, bareMember, bareItem, Spelling.meaning?, Spelling.named?,
      Spelling.meanings?, Quoted.text?_ofText] at hbody
    obtain rfl := Meaning.object.inj (Option.some_inj.mp hbody)
    have hvalue := Meaning.number.inj (Option.some_inj.mp hmember)
    exact absurd hvalue (by decide +kernel)

end SignRequest

end BootTrust
