import BootTrust.Config
import BootTrust.Proofs.Spelling.Scalars
import Mathlib.Data.List.Nodup
/-
The members that a configuration file may have. A member with a known name and a value of its
type is a `Setting`, and what it does is the same in two places: it fills a place of the
draft that the reader works on, and it replaces a member of the configuration that the draft
amounts to (`ofDraft_putInto`).

A draft takes each name only once, a configuration does not care. It is the draft that makes
the order of settings immaterial, since settings of different members can be exchanged and
settings of one member cannot.
-/

set_option autoImplicit false

namespace BootTrust.Config

open Json

/-! ## Settings -/

/-- A member of a configuration file with a value of its type. -/
inductive Setting where
  | useSignedUrl (b : Bool)
  | signEndpoint (s : Option String)
  | seedPath (p : Option Path)
  | volumeLabel (s : String)
  | mediaRelativePath (s : String)
  | timeoutSeconds (n : UInt64)

/-- The names that a configuration knows. -/
def settingNames : List String :=
  ["use_signed_url", "sign_endpoint", "seed_path", "volume_label", "media_relative_path",
    "request_timeout_secs"]

namespace Setting

def name : Setting → String
  | useSignedUrl _ => "use_signed_url"
  | signEndpoint _ => "sign_endpoint"
  | seedPath _ => "seed_path"
  | volumeLabel _ => "volume_label"
  | mediaRelativePath _ => "media_relative_path"
  | timeoutSeconds _ => "request_timeout_secs"

theorem name_mem (setting : Setting) : setting.name ∈ settingNames := by
  cases setting <;> simp [name, settingNames]

/-- What is written for a setting. A value that is unset is `null`. -/
def scalar : Setting → Scalar
  | useSignedUrl b => .bool b
  | signEndpoint none | seedPath none => .null
  | signEndpoint (some s) => .text s
  | seedPath (some p) => .text p.text
  | volumeLabel s => .text s
  | mediaRelativePath s => .text s
  | timeoutSeconds n => .integer n.toNat

/-- What is seen of the member. -/
def seen (setting : Setting) : Option String × Scalar :=
  (some setting.name, setting.scalar)

/-- A configuration with one setting replaced. -/
def applyTo (config : Config) : Setting → Config
  | useSignedUrl b => { config with useSignedUrl := b }
  | signEndpoint s => { config with signEndpoint := s }
  | seedPath p => { config with seedPath := p }
  | volumeLabel s => { config with volumeLabel := s }
  | mediaRelativePath s => { config with mediaRelativePath := s }
  | timeoutSeconds n => { config with timeoutSeconds := n }

variable {setting other : Setting}

/-- Settings of different members can be exchanged. -/
theorem applyTo_comm (h : setting.name ≠ other.name) (config : Config) :
    other.applyTo (setting.applyTo config) = setting.applyTo (other.applyTo config) := by
  cases setting <;> cases other <;> first | rfl | exact absurd rfl h

/-- The order in which settings of different members are made does not matter. -/
theorem foldl_applyTo_perm {settings settings' : List Setting} (h : settings.Perm settings')
    (hnames : (settings.map name).Nodup) (config : Config) :
    settings.foldl applyTo config = settings'.foldl applyTo config := by
  refine h.foldl_eq' (fun setting hsetting other hother config => ?_) config
  by_cases hname : setting.name = other.name
  · rw [List.inj_on_of_nodup_map hnames hsetting hother hname]
  · exact applyTo_comm hname config

/-- Whether a draft has a setting of the same member already. -/
def isMadeIn (draft : Draft) : Setting → Bool
  | useSignedUrl _ => draft.useSignedUrl.isSome
  | signEndpoint _ => draft.signEndpoint.isSome
  | seedPath _ => draft.seedPath.isSome
  | volumeLabel _ => draft.volumeLabel.isSome
  | mediaRelativePath _ => draft.mediaRelativePath.isSome
  | timeoutSeconds _ => draft.timeoutSeconds.isSome

/-- A draft with one setting more. -/
def putInto (draft : Draft) : Setting → Draft
  | useSignedUrl b => { draft with useSignedUrl := some b }
  | signEndpoint s => { draft with signEndpoint := some s }
  | seedPath p => { draft with seedPath := some p }
  | volumeLabel s => { draft with volumeLabel := some s }
  | mediaRelativePath s => { draft with mediaRelativePath := some s }
  | timeoutSeconds n => { draft with timeoutSeconds := some n }

theorem isMadeIn_putInto (draft : Draft) :
    other.isMadeIn (setting.putInto draft)
      = (decide (other.name = setting.name) || other.isMadeIn draft) := by
  cases setting <;> cases other <;> rfl

/-- Settings that a draft does not have are of other members than the one that was put into it
last. -/
theorem forall_isMadeIn_putInto {settings : List Setting} (draft : Draft) :
    (∀ other ∈ settings, other.isMadeIn (setting.putInto draft) = false)
      ↔ setting.name ∉ settings.map name ∧ ∀ other ∈ settings, other.isMadeIn draft = false := by
  simp only [isMadeIn_putInto, Bool.or_eq_false_iff, decide_eq_false_iff_not, List.mem_map,
    not_exists, not_and]
  exact forall₂_and

theorem isMadeIn_blank (setting : Setting) : setting.isMadeIn shape.blank = false := by
  cases setting <;> rfl

end Setting

/-- The configuration that a draft amounts to. -/
def ofDraft (draft : Draft) : Config where
  useSignedUrl := draft.useSignedUrl.getD default.useSignedUrl
  signEndpoint := draft.signEndpoint.getD default.signEndpoint
  seedPath := draft.seedPath.getD default.seedPath
  volumeLabel := draft.volumeLabel.getD default.volumeLabel
  mediaRelativePath := draft.mediaRelativePath.getD default.mediaRelativePath
  timeoutSeconds := draft.timeoutSeconds.getD default.timeoutSeconds

theorem finish_eq (draft : Draft) : shape.finish draft = .ok (ofDraft draft) := rfl

/-- To put a setting into a draft is to make it in the configuration. -/
theorem ofDraft_putInto (setting : Setting) (draft : Draft) :
    ofDraft (setting.putInto draft) = setting.applyTo (ofDraft draft) := by
  cases setting <;> rfl

theorem ofDraft_foldl_putInto (settings : List Setting) (draft : Draft) :
    ofDraft (settings.foldl Setting.putInto draft)
      = settings.foldl Setting.applyTo (ofDraft draft) :=
  (List.foldl_hom ofDraft fun draft setting => (ofDraft_putInto setting draft).symm).symm

/-! ## What the reader does with a member -/

/-- The number of seconds that is seen. -/
def seconds? (scalar : Scalar) : Option UInt64 :=
  (scalar.integer?.filter fun n => unsigned64.least ≤ n ∧ n ≤ unsigned64.greatest).map
    fun n => UInt64.ofNat n.toNat

theorem readsAs_seconds : ReadsAs seconds fun s => seconds? s.scalar := by
  have h := (@readsAs_integerAs unsigned64 (by decide)).map fun n => UInt64.ofNat n.toNat
  simp only [seconds?, Spelling.integer?_scalar]
  exact h

theorem readsAs_path : ReadsAs path fun s => s.scalar.text?.map Path.mk :=
  (readsAs_stringAs_scalar "path string").map Path.mk

/-- The places of a draft. -/
def places : List (Place Draft) := [
  { Kept := Bool
    name := "use_signed_url"
    optional := true
    reader := flag
    get := Draft.useSignedUrl
    put := fun d v => { d with useSignedUrl := some v }
    accept? := fun s => s.scalar.bool?
    readsAs := readsAs_flag
    get_put := fun _ _ => rfl },
  { Kept := Option String
    name := "sign_endpoint"
    optional := true
    reader := orNull text
    get := Draft.signEndpoint
    put := fun d v => { d with signEndpoint := some v }
    accept? := fun s => s.scalar.orNull? Scalar.text?
    readsAs := (readsAs_stringAs_scalar "a string").orNull
    get_put := fun _ _ => rfl },
  { Kept := Option Path
    name := "seed_path"
    optional := true
    reader := orNull path
    get := Draft.seedPath
    put := fun d v => { d with seedPath := some v }
    accept? := fun s => s.scalar.orNull? fun scalar => scalar.text?.map Path.mk
    readsAs := ReadsAs.orNull readsAs_path
    get_put := fun _ _ => rfl },
  { Kept := String
    name := "volume_label"
    optional := true
    reader := text
    get := Draft.volumeLabel
    put := fun d v => { d with volumeLabel := some v }
    accept? := fun s => s.scalar.text?
    readsAs := readsAs_stringAs_scalar "a string"
    get_put := fun _ _ => rfl },
  { Kept := String
    name := "media_relative_path"
    optional := true
    reader := text
    get := Draft.mediaRelativePath
    put := fun d v => { d with mediaRelativePath := some v }
    accept? := fun s => s.scalar.text?
    readsAs := readsAs_stringAs_scalar "a string"
    get_put := fun _ _ => rfl },
  { Kept := UInt64
    name := "request_timeout_secs"
    optional := true
    reader := seconds
    get := Draft.timeoutSeconds
    put := fun d v => { d with timeoutSeconds := some v }
    accept? := fun s => seconds? s.scalar
    readsAs := readsAs_seconds
    get_put := fun _ _ => rfl }]

theorem hasPlaces : shape.HasPlaces places where
  slots := rfl
  names := by decide
  apart := by
    intro p hp q hq hne draft b
    simp only [places, List.mem_cons, List.not_mem_nil, or_false] at hp hq
    rcases hp with rfl | rfl | rfl | rfl | rfl | rfl <;>
      rcases hq with rfl | rfl | rfl | rfl | rfl | rfl <;>
      first | rfl | exact absurd rfl hne
  blank := by
    intro p hp
    simp only [places, List.mem_cons, List.not_mem_nil, or_false] at hp
    rcases hp with rfl | rfl | rfl | rfl | rfl | rfl <;> rfl
  ext := by
    rintro ⟨_, _, _, _, _, _⟩ ⟨_, _, _, _, _, _⟩ h
    simp only [places, List.forall_mem_cons] at h
    obtain ⟨rfl, rfl, rfl, rfl, rfl, rfl, -⟩ := h
    rfl

theorem seconds?_eq_some_iff {scalar : Scalar} {n : UInt64} :
    seconds? scalar = some n ↔ scalar = .integer n.toNat := by
  rw [seconds?, Option.map_eq_some_iff]
  constructor
  · rintro ⟨m, hm, rfl⟩
    obtain ⟨hinteger, hrange⟩ := Option.filter_eq_some_iff.mp hm
    obtain ⟨hleast, hgreatest⟩ : 0 ≤ m ∧ m ≤ 0xFFFFFFFFFFFFFFFF := of_decide_eq_true hrange
    have hlt : m.toNat < 2 ^ 64 := by omega
    rw [Scalar.integer?_eq_some_iff.mp hinteger, UInt64.toNat_ofNat', Nat.mod_eq_of_lt hlt,
      Int.toNat_of_nonneg hleast]
  · rintro rfl
    have hn := n.toNat_lt
    have hrange : 0 ≤ (n.toNat : Int) ∧ (n.toNat : Int) ≤ 0xFFFFFFFFFFFFFFFF := ⟨by omega, by omega⟩
    refine ⟨n.toNat, Option.filter_eq_some_iff.mpr ⟨rfl, decide_eq_true hrange⟩, ?_⟩
    rw [Int.toNat_natCast, UInt64.ofNat_toNat]

theorem map_mk_text?_eq_some_iff {scalar : Scalar} {p : Path} :
    scalar.text?.map Path.mk = some p ↔ scalar = .text p.text := by
  rw [Option.map_eq_some_iff]
  constructor
  · rintro ⟨t, htext, rfl⟩
    exact Scalar.text?_eq_some_iff.mp htext
  · rintro rfl
    exact ⟨p.text, rfl, rfl⟩

/-- Whether the settings of one member are what a place takes: they have its name, it accepts what
is written for them, and it puts into a draft what they put. -/
structure Makes (p : Place Draft) (setting : p.Kept → Setting) : Prop where
  name : ∀ v, (setting v).name = p.name
  isMadeIn : ∀ v draft, (setting v).isMadeIn draft = (p.get draft).isSome
  putInto : ∀ v draft, (setting v).putInto draft = p.put draft v
  accepts : ∀ s v, p.accept? s = some v ↔ s.scalar = (setting v).scalar
  all : ∀ other : Setting, other.name = p.name → ∃ v, setting v = other

theorem exists_makes : ∀ p ∈ places, ∃ setting : p.Kept → Setting, Makes p setting := by
  simp only [places, List.forall_mem_cons]
  refine ⟨⟨.useSignedUrl, fun _ => rfl, fun _ _ => rfl, fun _ _ => rfl,
      fun _ _ => Scalar.bool?_eq_some_iff, ?_⟩,
    ⟨.signEndpoint, fun _ => rfl, fun _ _ => rfl, fun _ _ => rfl,
      fun s endpoint? => ?endpoint, ?_⟩,
    ⟨.seedPath, fun _ => rfl, fun _ _ => rfl, fun _ _ => rfl, fun s path? => ?path, ?_⟩,
    ⟨.volumeLabel, fun _ => rfl, fun _ _ => rfl, fun _ _ => rfl,
      fun _ _ => Scalar.text?_eq_some_iff, ?_⟩,
    ⟨.mediaRelativePath, fun _ => rfl, fun _ _ => rfl, fun _ _ => rfl,
      fun _ _ => Scalar.text?_eq_some_iff, ?_⟩,
    ⟨.timeoutSeconds, fun _ => rfl, fun _ _ => rfl, fun _ _ => rfl,
      fun _ _ => seconds?_eq_some_iff, ?_⟩, by simp⟩
  case endpoint =>
    rw [Scalar.orNull?_eq_some_iff (fun _ => Scalar.text?_eq_some_iff) fun _ => Scalar.noConfusion]
    rcases endpoint? with _ | t <;> rfl
  case path =>
    rw [Scalar.orNull?_eq_some_iff (fun _ => map_mk_text?_eq_some_iff) fun _ => Scalar.noConfusion]
    rcases path? with _ | p <;> rfl
  -- there are no other settings of the member
  all_goals
    intro other hname
    cases other <;> first | exact ⟨_, rfl⟩ | exact absurd hname (by simp [Setting.name])

section Effects

variable {draft draft' : Draft} {s : Spelling} {name : String}

/-- A setting is put into the draft, unless the draft has one of the same member. -/
theorem effect?_setting {setting : Setting} (h : s.scalar = setting.scalar) :
    Place.effect? places draft setting.name s
      = if setting.isMadeIn draft then none else some (setting.putInto draft) := by
  obtain ⟨p, hp, hname⟩ :=
    List.mem_map.mp (show setting.name ∈ places.map Place.name from setting.name_mem)
  obtain ⟨made, hmade⟩ := exists_makes p hp
  obtain ⟨v, rfl⟩ := hmade.all setting hname.symm
  rw [hmade.name, hasPlaces.effect?_eq hp, (hmade.accepts s v).mpr h, hmade.isMadeIn, hmade.putInto]
  rfl

theorem effect?_unknown (hname : name ∉ settingNames) :
    Place.effect? places draft name s = some draft := by
  have hfind : places.find? (·.name = name) = none := by
    rw [List.find?_eq_none]
    intro p hp hpname
    have hmem : p.name ∈ places.map Place.name := List.mem_map_of_mem hp
    rw [of_decide_eq_true hpname] at hmem
    exact hname hmem
  rw [Place.effect?, hfind]

/-- Of a known name nothing but settings are taken. -/
theorem exists_setting_of_effect? (hname : name ∈ settingNames)
    (h : Place.effect? places draft name s = some draft') :
    ∃ setting : Setting, setting.name = name ∧ setting.scalar = s.scalar := by
  obtain ⟨p, hp, rfl⟩ := List.mem_map.mp (show name ∈ places.map Place.name from hname)
  obtain ⟨made, hmade⟩ := exists_makes p hp
  rw [hasPlaces.effect?_eq hp] at h
  split at h
  · cases h
  · obtain ⟨v, hv, -⟩ := Option.map_eq_some_iff.mp h
    exact ⟨made v, hmade.name v, ((hmade.accepts s v).mp hv).symm⟩

end Effects

end BootTrust.Config
