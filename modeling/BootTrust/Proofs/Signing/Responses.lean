import BootTrust.Proofs.Signing.Messages
import BootTrust.Proofs.Spelling.Records
/-
Responses as the service may write them, with the members of an object in any order and among
others, or as an array. What a response is depends on the values of four names alone
(`SignResponse.ofValues?`): each may be written once, the status has to be there, and the others
have defaults. The reader accepts what this accepts and nothing else (`parse_eq_ok_iff`), and what
the values do not tell apart it does not tell apart either.

A response that was read can be written and read again, since a status that was read is the one that
its text stands for. That holds for every body, whatever it is written as (`parse_body_of_parse`).
-/

set_option autoImplicit false

namespace BootTrust.SignResponse

open Json

/-! ## What a response consists of -/

/-- The names that a response knows. -/
def memberNames : List String :=
  ["Status", "ErrorCode", "SignedURL", "Path"]

/-- The error code that a value is. -/
def code? (integer? : Option Int) : Option Int64 :=
  (integer?.filter fun n => signed64.least ≤ n ∧ n ≤ signed64.greatest).map Int64.ofInt

/-- What the values of the names come to. They may be of any kind for which it is known which of
them are texts and which are integers. -/
def ofValues? {κ : Type} (text? : κ → Option String) (integer? : κ → Option Int)
    (values : String → List κ) : Option SignResponse :=
  match once? text? (values "Status"), once? (fun v => code? (integer? v)) (values "ErrorCode"),
    once? text? (values "SignedURL"), once? text? (values "Path") with
  | some (some status), some code, some url, some path =>
    some ⟨.ofText status, code.getD 0, url.getD "", path.getD ""⟩
  | _, _, _, _ => none

/-- Whether a value is of the type that a response wants under a name. -/
def suits {κ : Type} (text? : κ → Option String) (integer? : κ → Option Int) (name : String)
    (v : κ) : Bool :=
  if name = "ErrorCode" then (code? (integer? v)).isSome
  else if name ∈ memberNames then (text? v).isSome
  else true

section Values

variable {κ κ' : Type}
  {text? : κ → Option String} {integer? : κ → Option Int} {values values' : String → List κ}
  {text?' : κ' → Option String} {integer?' : κ' → Option Int} {written : String → List κ'}

theorem ofValues?_eq_some_iff {r : SignResponse} : ofValues? text? integer? values = some r
    ↔ ∃ status code url path, once? text? (values "Status") = some (some status)
      ∧ once? (fun v => code? (integer? v)) (values "ErrorCode") = some code
      ∧ once? text? (values "SignedURL") = some url ∧ once? text? (values "Path") = some path
      ∧ r = ⟨.ofText status, code.getD 0, url.getD "", path.getD ""⟩ := by
  rw [ofValues?]
  constructor
  · intro h
    split at h
    · next status code url path hstatus hcode hurl hpath =>
      cases h
      exact ⟨status, code, url, path, hstatus, hcode, hurl, hpath, rfl⟩
    · cases h
  · rintro ⟨status, code, url, path, hstatus, hcode, hurl, hpath, rfl⟩
    simp only [hstatus, hcode, hurl, hpath]

/-- Values that are all of their types make a response if and only if there is one status and no
name has two. -/
theorem exists_ofValues?_iff
    (hsuits : ∀ name ∈ memberNames, ∀ v ∈ values name, suits text? integer? name v = true) :
    (∃ r, ofValues? text? integer? values = some r)
      ↔ (values "Status").length = 1 ∧ ∀ name ∈ memberNames, (values name).length ≤ 1 := by
  simp only [memberNames, List.forall_mem_cons] at hsuits ⊢
  obtain ⟨hstatus, hcode, hurl, hpath, -⟩ := hsuits
  rw [← exists_once?_some_iff hstatus, ← exists_once?_iff hcode, ← exists_once?_iff hurl,
    ← exists_once?_iff hpath, ← exists_once?_iff hstatus]
  simp only [ofValues?_eq_some_iff]
  constructor
  · rintro ⟨r, status, code, url, path, hstatus, hcode, hurl, hpath, -⟩
    exact ⟨⟨status, hstatus⟩, ⟨some status, hstatus⟩, ⟨code, hcode⟩, ⟨url, hurl⟩,
      ⟨path, hpath⟩, by simp⟩
  · rintro ⟨⟨status, hstatus⟩, -, ⟨code, hcode⟩, ⟨url, hurl⟩, ⟨path, hpath⟩, -⟩
    exact ⟨_, status, code, url, path, hstatus, hcode, hurl, hpath, rfl⟩

/-- A value that is not of its type is enough for a refusal. -/
theorem ofValues?_eq_none {name : String} {v : κ} (hmem : v ∈ values name)
    (hno : suits text? integer? name v = false) : ofValues? text? integer? values = none := by
  rcases hvalues : ofValues? text? integer? values with _ | r
  · rfl
  obtain ⟨status, code, url, path, hstatus, hcode, hurl, hpath, -⟩ :=
    ofValues?_eq_some_iff.mp hvalues
  rw [suits] at hno
  split at hno
  · next hname =>
    subst hname
    rw [once?_eq_none hmem (by simpa using hno)] at hcode
    cases hcode
  · split at hno
    · next hname =>
      have hrefused := once?_eq_none hmem (show text? v = none by simpa using hno)
      simp only [memberNames, List.mem_cons, List.not_mem_nil, or_false] at hname
      rcases hname with rfl | rfl | rfl | rfl
      · rw [hrefused] at hstatus
        cases hstatus
      · contradiction
      · rw [hrefused] at hurl
        cases hurl
      · rw [hrefused] at hpath
        cases hpath
    · cases hno

/-- The order in which values are written does not matter. -/
theorem ofValues?_perm (h : ∀ name ∈ memberNames, (values name).Perm (values' name)) :
    ofValues? text? integer? values = ofValues? text? integer? values' := by
  rw [ofValues?, ofValues?, once?_perm (h "Status" (by simp [memberNames])),
    once?_perm (h "ErrorCode" (by simp [memberNames])),
    once?_perm (h "SignedURL" (by simp [memberNames])),
    once?_perm (h "Path" (by simp [memberNames]))]

/-- Values of two kinds with the same texts and the same integers come to the same. -/
theorem ofValues?_congr
    (htext : ∀ name, List.Forall₂ (fun v w => text? v = text?' w) (values name) (written name))
    (hinteger : ∀ name,
      List.Forall₂ (fun v w => integer? v = integer?' w) (values name) (written name)) :
    ofValues? text? integer? values = ofValues? text?' integer?' written := by
  have hcode : List.Forall₂ (fun v w => code? (integer? v) = code? (integer?' w))
      (values "ErrorCode") (written "ErrorCode") :=
    (hinteger "ErrorCode").imp fun _ _ h => congrArg code? h
  rw [ofValues?, ofValues?, once?_congr (htext "Status"), once?_congr hcode,
    once?_congr (htext "SignedURL"), once?_congr (htext "Path")]

end Values

/-! ## Objects -/

/-- The places of a draft. -/
def places : List (Place Draft) := [
  { Kept := SignStatus
    name := "Status"
    optional := false
    reader := readStatus
    get := Draft.status
    put := fun d v => { d with status := some v }
    accept? := fun s => s.text?.map SignStatus.ofText
    readsAs := readsAs_text.map SignStatus.ofText
    get_put := fun _ _ => rfl },
  { Kept := Int64
    name := "ErrorCode"
    optional := true
    reader := readErrorCode
    get := Draft.errorCode
    put := fun d v => { d with errorCode := some v }
    accept? := fun s => code? s.integer?
    readsAs := (@readsAs_integerAs signed64 (by decide)).map Int64.ofInt
    get_put := fun _ _ => rfl },
  { Kept := String
    name := "SignedURL"
    optional := true
    reader := text
    get := Draft.signedUrl
    put := fun d v => { d with signedUrl := some v }
    accept? := Spelling.text?
    readsAs := readsAs_text
    get_put := fun _ _ => rfl },
  { Kept := String
    name := "Path"
    optional := true
    reader := text
    get := Draft.path
    put := fun d v => { d with path := some v }
    accept? := Spelling.text?
    readsAs := readsAs_text
    get_put := fun _ _ => rfl }]

theorem hasPlaces : shape.HasPlaces places where
  slots := rfl
  names := by decide
  apart := by
    intro p hp q hq hne draft b
    simp only [places, List.mem_cons, List.not_mem_nil, or_false] at hp hq
    rcases hp with rfl | rfl | rfl | rfl <;> rcases hq with rfl | rfl | rfl | rfl <;>
      first | rfl | exact absurd rfl hne
  blank := by
    intro p hp
    simp only [places, List.mem_cons, List.not_mem_nil, or_false] at hp
    rcases hp with rfl | rfl | rfl | rfl <;> rfl
  ext := by
    rintro ⟨status, code, url, path⟩ ⟨status', code', url', path'⟩ h
    simp only [places, List.forall_mem_cons] at h
    obtain ⟨rfl, rfl, rfl, rfl, -⟩ := h
    rfl

/-- An object is a response if and only if the names of its members are texts and the values of the
names that are known come to one. -/
theorem parse_eq_ok_iff {file : Padded Spelling} {ms : List (Member Spelling)}
    (hms : file.inner.members? = some ms) {r : SignResponse} :
    parse file.bytes = .ok r
      ↔ (∀ m ∈ ms, m.name.inner.text?.isSome = true)
        ∧ ofValues? Spelling.text? Spelling.integer? (Spelling.valuesOf ms) = some r := by
  rw [parse, hasPlaces.parse_eq_ok_iff hms, ofValues?_eq_some_iff]
  simp only [places, List.forall_mem_cons, once?_map]
  refine and_congr_right fun _ => ?_
  constructor
  · rintro ⟨⟨status, code, url, path⟩, ⟨hstatus, hcode, hurl, hpath, -⟩, hfinish⟩
    obtain ⟨read, hread, hstatus⟩ := Option.map_eq_some_iff.mp hstatus
    rcases read with _ | t
    · obtain rfl : none = status := hstatus
      cases hfinish
    · obtain rfl : some (SignStatus.ofText t) = status := hstatus
      cases hfinish
      exact ⟨t, code, url, path, hread, hcode, hurl, hpath, rfl⟩
  · rintro ⟨t, code, url, path, hstatus, hcode, hurl, hpath, rfl⟩
    refine ⟨⟨some (.ofText t), code, url, path⟩, ⟨?_, hcode, hurl, hpath, by simp⟩, rfl⟩
    rw [hstatus]
    rfl

/-- The same for the members of an object in memory, as it is printed. -/
theorem parse_compact_eq_ok_iff (ms : List (String × Document)) {r : SignResponse} :
    parse (Document.object ms).compact = .ok r
      ↔ ofValues? Document.text? Document.integer? (Document.valuesOf ms) = some r := by
  obtain ⟨file, members, hbytes, hmembers, hprinted⟩ := Document.exists_padded_of_object .none ms
  have hvalues := Document.forall₂_valuesOf hprinted
  rw [Document.compact, ← hbytes, parse_eq_ok_iff hmembers,
    and_iff_right (Document.isSome_of_isPrintedAs hprinted)]
  rw [ofValues?_congr (fun name => (hvalues name).imp fun _ _ h => h.text.symm)
    fun name => (hvalues name).imp fun _ _ h => h.integer.symm]

/-! ## Written again -/

/-- Whether the status that a draft has, if any, is the one that its text stands for. -/
def Draft.StatusIsText (draft : Draft) : Prop :=
  ∀ status, draft.status = some status → SignStatus.ofText status.text = status

/-- A response that was read is read again from what is written for it. -/
theorem parse_body_of_parse {body : Bytes} {r : SignResponse} (h : parse body = .ok r) :
    parse r.body = .ok r := by
  have hslot : ∀ slot ∈ shape.slots, ∀ draft text draft' rest, Draft.StatusIsText draft →
      slot.read draft text = .ok (draft', rest) → Draft.StatusIsText draft' := by
    intro slot hslot draft text draft' rest hstatus hread
    simp only [shape, List.mem_cons, List.not_mem_nil, or_false] at hslot
    rcases hslot with rfl | rfl | rfl | rfl
    · refine Slot.of_keeps hstatus hread fun status left _ hread => ?_
      obtain ⟨⟨t, left'⟩, -, hread⟩ := Steps.bind_eq_ok_iff.mp hread
      cases hread
      intro status' hstatus'
      obtain rfl := Option.some_inj.mp hstatus'
      rw [SignStatus.text_ofText]
    · exact Slot.of_keeps hstatus hread fun _ _ hdraft _ => hdraft
    · exact Slot.of_keeps hstatus hread fun _ _ hdraft _ => hdraft
    · exact Slot.of_keeps hstatus hread fun _ _ hdraft _ => hdraft
  have hblank : Draft.StatusIsText shape.blank := fun status h => by cases h
  obtain ⟨draft, hstatus, hfinish⟩ := Shape.parse_keeps hslot hblank h
  rcases draft with ⟨_ | status, code, url, path⟩
  · cases hfinish
  · cases hfinish
    exact parse_body _ (hstatus status rfl)

/-! ## Nothing is ambiguous -/

/-- Whether the values that the known names have decide what is read of a body. -/
structure IsDecidedBy {κ : Type} (body : Bytes) (text? : κ → Option String)
    (integer? : κ → Option Int) (values : String → List κ) : Prop where
  result : ∀ r, parse body = .ok r ↔ ofValues? text? integer? values = some r
  /-- Among values of the right types only their numbers count. -/
  accepted : (∀ name ∈ memberNames, ∀ v ∈ values name, suits text? integer? name v = true) →
    ((∃ r, parse body = .ok r)
      ↔ (values "Status").length = 1 ∧ ∀ name ∈ memberNames, (values name).length ≤ 1)
  /-- One value of a wrong type is enough, wherever it is and whatever else there is. -/
  refused : ∀ name, ∀ v ∈ values name, suits text? integer? name v = false → ∀ r, parse body ≠ .ok r

theorem isDecidedBy {κ : Type} {body : Bytes} {text? : κ → Option String}
    {integer? : κ → Option Int} {values : String → List κ}
    (h : ∀ r, parse body = .ok r ↔ ofValues? text? integer? values = some r) :
    IsDecidedBy body text? integer? values where
  result := h
  accepted := fun hsuits => (exists_congr h).trans (exists_ofValues?_iff hsuits)
  refused := by
    intro name v hmem hno r hread
    have hsome := (h r).mp hread
    rw [ofValues?_eq_none hmem hno] at hsome
    cases hsome

/-- An object is read as what the values of the known names come to, whoever wrote it, and so is one
that is printed. The order of members and those with other names are of no consequence. What is read
of a body in any form is read again from what is written for it. -/
theorem parse_unambiguous :
    (∀ (file : Padded Spelling) (ms : List (Member Spelling)), file.inner.members? = some ms →
      (∀ m ∈ ms, m.name.inner.text?.isSome = true) →
      IsDecidedBy file.bytes Spelling.text? Spelling.integer? (Spelling.valuesOf ms))
    ∧ (∀ ms : List (String × Document),
      IsDecidedBy (Document.object ms).compact Document.text? Document.integer?
        (Document.valuesOf ms))
    ∧ (∀ ms ms' : List (String × Document),
      (∀ name ∈ memberNames, (Document.valuesOf ms name).Perm (Document.valuesOf ms' name)) →
      ∀ r, parse (Document.object ms).compact = .ok r ↔ parse (Document.object ms').compact = .ok r)
    ∧ ∀ body r, parse body = .ok r → parse r.body = .ok r := by
  refine ⟨fun file ms hms hnames => isDecidedBy fun r => ?_,
    fun ms => isDecidedBy fun r => parse_compact_eq_ok_iff ms, fun ms ms' hvalues r => ?_,
    fun body r => parse_body_of_parse⟩
  · rw [parse_eq_ok_iff hms, and_iff_right hnames]
  · rw [parse_compact_eq_ok_iff, parse_compact_eq_ok_iff, ofValues?_perm hvalues]

/-- Members in another order than usual with one that is unknown; the same with a second status,
with a code that is `null` and with a code that is written as minus zero; and a response that is
written as an array. -/
theorem parse_unambiguous_unusual :
    let unknown := ("Note", Document.object [("Status", .null)])
    let path := ("Path", Document.string "/boot")
    let status := ("Status", Document.string "Success")
    let code := Spelling.number ⟨true, ⟨0, []⟩, none, none, fun _ => rfl⟩
    let r : SignResponse := ⟨.success, 0, "", "/boot"⟩
    let odd : SignResponse := ⟨.other "Odd", 5, "u", "p"⟩
    parse (Document.object [unknown, path, status]).compact = .ok r
      ∧ parse (Document.object [status, path]).compact = .ok r
      ∧ (¬ ∃ r, parse (Document.object [status, unknown, status]).compact = .ok r)
      ∧ (∀ r, parse (Document.object [status, ("ErrorCode", .null)]).compact ≠ .ok r)
      ∧ (∀ r, parse (Padded.bytes ⟨.none, .object
          ⟨Document.printedName .none 0 "ErrorCode", .none, code, .none⟩ [], .none⟩) ≠ .ok r)
      ∧ parse odd.body = .ok odd := by
  intro unknown path status code r odd
  obtain ⟨hspelled, hprinted, horder, hagain⟩ := parse_unambiguous
  have hread : parse (Document.object [unknown, path, status]).compact = .ok r :=
    ((hprinted _).result r).mpr rfl
  have hvalues : ∀ name ∈ memberNames, (Document.valuesOf [unknown, path, status] name).Perm
      (Document.valuesOf [status, path] name) := by
    simp only [memberNames, List.forall_mem_cons]
    exact ⟨.refl _, .refl _, .refl _, .refl _, by simp⟩
  refine ⟨hread, (horder _ _ hvalues r).mp hread, fun h => ?_, ?_, ?_, ?_⟩
  · have hone := ((hprinted [status, unknown, status]).accepted (by decide)).mp h
    exact absurd hone.1 (by decide)
  · exact (hprinted [status, ("ErrorCode", .null)]).refused "ErrorCode" .null (.head []) rfl
  · exact (hspelled _ _ rfl (by decide)).refused "ErrorCode" code (.head []) rfl
  · have harray : (parse (Utf8.encode "[\"Odd\",5,\"u\",\"p\"]")).toOption = some odd := by
      decide +kernel
    exact hagain _ _ (Steps.toOption_eq_some_iff.mp harray)

end BootTrust.SignResponse
