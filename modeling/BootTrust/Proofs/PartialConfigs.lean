import BootTrust.Proofs.Settings
/-
Configuration files that say only some of the configuration, in any order and among members that
mean nothing to it. What such a file holds is the default configuration with its settings put into
it, one after the other, and it is refused if it has two settings of one member or a known name with
a value that is no setting. Nothing else is refused.

The reader meets the settings in the order in which they are written (`Sets`), and that is the order
of the induction. Which order it is makes no difference in the end, so the result is stated for
settings that are listed in any order (`Lists`).
-/

set_option autoImplicit false

namespace BootTrust.Config

open Json

/-! ## What a file sets -/

/-- What is seen of the members of an object: their names, as far as they are texts, and their
scalars. -/
abbrev Sight := List (Option String × Scalar)

/-- Which settings are seen, in their order. Members with other names are passed over. -/
inductive Sets : Sight → List Setting → Prop where
  | nil : Sets [] []
  | other {name : String} (scalar : Scalar) {seen : Sight} {settings : List Setting}
      (hname : name ∉ settingNames) (h : Sets seen settings) :
      Sets ((some name, scalar) :: seen) settings
  | setting (setting : Setting) {seen : Sight} {settings : List Setting} (h : Sets seen settings) :
      Sets (setting.seen :: seen) (setting :: settings)

/-- Whether members are settings and others with names that mean nothing, in any order. -/
def Lists (seen : Sight) (settings : List Setting) : Prop :=
  ∃ others : Sight, (∀ m ∈ others, ∃ name, m.1 = some name ∧ name ∉ settingNames)
    ∧ seen.Perm (settings.map Setting.seen ++ others)

namespace Sets

variable {seen : Sight} {settings : List Setting} {name : String}

/-- A known name is seen as often as it is set. -/
theorem count_eq (h : Sets seen settings) (hname : name ∈ settingNames) :
    (seen.map Prod.fst).count (some name) = (settings.map Setting.name).count name := by
  induction h with
  | nil => rfl
  | other scalar hother _ ih =>
    rw [List.map_cons, List.count_cons_of_ne, ih]
    intro heq
    exact hother (Option.some_inj.mp heq ▸ hname)
  | setting setting _ ih =>
    rw [List.map_cons, List.map_cons, List.count_cons, List.count_cons, ih, Setting.seen]
    simp

/-- What is seen under a known name is a setting of it. -/
theorem exists_setting {scalar : Scalar} (h : Sets seen settings) (hname : name ∈ settingNames)
    (hmem : (some name, scalar) ∈ seen) :
    ∃ setting : Setting, setting.name = name ∧ setting.scalar = scalar := by
  induction h with
  | nil => cases hmem
  | other scalar' hother _ ih =>
    rcases List.mem_cons.mp hmem with heq | hmem
    · cases heq
      exact absurd hname hother
    · exact ih hmem
  | setting setting _ ih =>
    rcases List.mem_cons.mp hmem with heq | hmem
    · cases heq
      exact ⟨setting, rfl, rfl⟩
    · exact ih hmem

/-- What is set in some order is listed. -/
theorem lists (h : Sets seen settings) : Lists seen settings := by
  induction h with
  | nil => exact ⟨[], by simp, .nil⟩
  | @other name scalar seen settings hname _ ih =>
    obtain ⟨others, hothers, hperm⟩ := ih
    exact ⟨(some name, scalar) :: others, List.forall_mem_cons.mpr ⟨⟨name, rfl, hname⟩, hothers⟩,
      (hperm.cons _).trans List.perm_middle.symm⟩
  | setting setting _ ih =>
    obtain ⟨others, hothers, hperm⟩ := ih
    exact ⟨others, hothers, hperm.cons _⟩

end Sets

/-- What is listed is set in some order. -/
theorem Lists.exists_sets {seen : Sight} {settings : List Setting} (h : Lists seen settings) :
    ∃ listed : List Setting, listed.Perm settings ∧ Sets seen listed := by
  obtain ⟨others, hothers, hperm⟩ := h
  induction seen generalizing settings others with
  | nil =>
    obtain ⟨hsettings, -⟩ := List.append_eq_nil_iff.mp (List.nil_perm.mp hperm)
    rw [List.map_eq_nil_iff.mp hsettings]
    exact ⟨[], .nil, .nil⟩
  | cons first seen ih =>
    rcases List.mem_append.mp (hperm.subset List.mem_cons_self) with hmem | hmem
    -- the first member is one of the settings
    · obtain ⟨setting, hsetting, rfl⟩ := List.mem_map.mp hmem
      obtain ⟨front, back, rfl⟩ := List.append_of_mem hsetting
      have hrest : seen.Perm ((front ++ back).map Setting.seen ++ others) := by
        refine List.Perm.cons_inv (hperm.trans ?_)
        simp only [List.map_append, List.map_cons, List.append_assoc, List.cons_append]
        exact List.perm_middle
      obtain ⟨listed, hlisted, hsets⟩ := ih _ hothers hrest
      exact ⟨setting :: listed, (hlisted.cons _).trans List.perm_middle.symm,
        .setting setting hsets⟩
    -- or one of the others
    · obtain ⟨front, back, rfl⟩ := List.append_of_mem hmem
      have hrest : seen.Perm (settings.map Setting.seen ++ (front ++ back)) := by
        refine List.Perm.cons_inv (hperm.trans ?_)
        rw [← List.append_assoc, ← List.append_assoc]
        exact List.perm_middle
      have hothers' : ∀ m ∈ front ++ back, ∃ name, m.1 = some name ∧ name ∉ settingNames := by
        intro m hm
        refine hothers m ?_
        rcases List.mem_append.mp hm with hm | hm
        · exact List.mem_append_left _ hm
        · exact List.mem_append_right _ (List.mem_cons_of_mem _ hm)
      obtain ⟨listed, hlisted, hsets⟩ := ih _ hothers' hrest
      obtain ⟨name, hfirst, hname⟩ := hothers first hmem
      obtain ⟨_, scalar⟩ := first
      obtain rfl : _ = some name := hfirst
      exact ⟨listed, hlisted, .other scalar hname hsets⟩

/-- The members of an object change a draft by the settings among them, if each is of another member
and of one that the draft does not have yet. -/
theorem foldlM_eq_some_iff {ms : List (Member Spelling)} {draft final : Draft} :
    ms.foldlM (Member.change? (Place.effect? places)) draft = some final
      ↔ ∃ settings, Sets (ms.map Member.seen) settings ∧ (settings.map Setting.name).Nodup
        ∧ (∀ setting ∈ settings, setting.isMadeIn draft = false)
        ∧ settings.foldl Setting.putInto draft = final := by
  induction ms generalizing draft with
  | nil =>
    constructor
    · rintro ⟨⟩
      exact ⟨[], .nil, List.nodup_nil, by simp, rfl⟩
    · rintro ⟨settings, hsets, -, -, hfinal⟩
      cases hsets
      exact congrArg some hfinal
  | cons m ms ih =>
    have hcons : (m :: ms).foldlM (Member.change? (Place.effect? places)) draft
        = (Member.change? (Place.effect? places) draft m).bind fun draft' =>
          ms.foldlM (Member.change? (Place.effect? places)) draft' := List.foldlM_cons ..
    rw [hcons, Option.bind_eq_some_iff, List.map_cons, Member.seen, Member.change?]
    simp only [ih]
    constructor
    · rintro ⟨draft', heffect, settings, hsets, hnodup, hnew, hfinal⟩
      obtain ⟨name, htext, heffect⟩ := Option.bind_eq_some_iff.mp heffect
      rw [htext]
      by_cases hname : name ∈ settingNames
      · obtain ⟨setting, rfl, hscalar⟩ := exists_setting_of_effect? hname heffect
        rw [effect?_setting hscalar.symm] at heffect
        split at heffect
        · cases heffect
        next hfree =>
        cases heffect
        obtain ⟨hother, hnew⟩ := (Setting.forall_isMadeIn_putInto draft).mp hnew
        refine ⟨setting :: settings, ?_, List.nodup_cons.mpr ⟨hother, hnodup⟩,
          List.forall_mem_cons.mpr ⟨Bool.eq_false_iff.mpr hfree, hnew⟩, hfinal⟩
        rw [← hscalar]
        exact .setting setting hsets
      · rw [effect?_unknown hname] at heffect
        cases heffect
        exact ⟨settings, .other _ hname hsets, hnodup, hnew, hfinal⟩
    · rintro ⟨settings, hsets, hnodup, hnew, hfinal⟩
      generalize hseen : (m.name.inner.text?, m.value.inner.scalar) = first at hsets
      cases hsets with
      | other scalar hname hsets =>
        obtain ⟨htext, -⟩ := Prod.mk.inj hseen
        exact ⟨draft, by rw [htext, Option.bind_some, effect?_unknown hname], settings, hsets,
          hnodup, hnew, hfinal⟩
      | setting setting hsets =>
        obtain ⟨htext, hscalar⟩ := Prod.mk.inj hseen
        obtain ⟨hother, hnodup⟩ := List.nodup_cons.mp hnodup
        obtain ⟨hfree, hnew⟩ := List.forall_mem_cons.mp hnew
        refine ⟨setting.putInto draft, ?_, _, hsets, hnodup,
          (Setting.forall_isMadeIn_putInto draft).mpr ⟨hother, hnew⟩, hfinal⟩
        rw [htext, Option.bind_some, effect?_setting hscalar, if_neg (Bool.eq_false_iff.mp hfree)]

/-! ## Loading -/

section Loading

variable {disk : Disk} {p : Path} {file : Padded Spelling} {ms : List (Member Spelling)}
  {config : Config}

/-- What is spelled is a text, so all that can be wrong with it is found by the reader. -/
theorem load_of_spelled (hread : disk.read p = .ok file.bytes) :
    load disk p = (shape.parse file.bytes).mapError (.parse p) := by
  obtain ⟨text, hdecode, -⟩ := file.isText.decode?
  rw [load, hread]
  simp only [hdecode, Option.isNone_some, Bool.false_eq_true, if_false]
  rcases shape.parse file.bytes with cause | config
  · rfl
  · rfl

/-- An object is loaded if its settings are of different members, as the default with these
settings. -/
theorem load_eq_ok_iff (hread : disk.read p = .ok file.bytes)
    (hms : file.inner.members? = some ms) : load disk p = .ok config
      ↔ ∃ settings, Sets (ms.map Member.seen) settings ∧ (settings.map Setting.name).Nodup
        ∧ settings.foldl Setting.applyTo default = config := by
  rw [load_of_spelled hread, Steps.mapError_eq_ok_iff, hasPlaces.parse_eq_ok_iff_foldlM hms]
  simp only [foldlM_eq_some_iff, finish_eq]
  have hblank : ofDraft shape.blank = default := rfl
  constructor
  · rintro ⟨_, ⟨settings, hsets, hnodup, -, rfl⟩, hconfig⟩
    rw [ofDraft_foldl_putInto, hblank] at hconfig
    exact ⟨settings, hsets, hnodup, Except.ok.inj hconfig⟩
  · rintro ⟨settings, hsets, hnodup, rfl⟩
    refine ⟨_, ⟨settings, hsets, hnodup, fun setting _ => setting.isMadeIn_blank, rfl⟩, ?_⟩
    rw [ofDraft_foldl_putInto, hblank]

/-- What is not loaded is refused by the reader. -/
theorem exists_parse_of_ne_ok (hread : disk.read p = .ok file.bytes)
    (h : ∀ config, load disk p ≠ .ok config) : ∃ cause, load disk p = .error (.parse p cause) := by
  rw [load_of_spelled hread] at h ⊢
  rcases hparse : shape.parse file.bytes with cause | config
  · exact ⟨cause, rfl⟩
  · rw [hparse] at h
    exact absurd rfl (h config)

end Loading

/-- Whether a file is loaded as its settings have it: as the default with the settings replaced,
whatever their order, and not at all if there is a second setting of a member or a known name with a
value that is no setting. -/
structure IsLoadedAs (result : Except ConfigError Config) (p : Path) (seen : Sight) : Prop where
  accepted : ∀ settings, Lists seen settings → (settings.map Setting.name).Nodup →
    result = .ok (settings.foldl Setting.applyTo default)
  refused : (¬ ∃ settings, Lists seen settings ∧ (settings.map Setting.name).Nodup) →
    ∃ cause, result = .error (.parse p cause)
  twice : ∀ name ∈ settingNames, 2 ≤ (seen.map Prod.fst).count (some name) →
    ∃ cause, result = .error (.parse p cause)
  mistyped : ∀ name ∈ settingNames, ∀ scalar, (some name, scalar) ∈ seen →
    (¬ ∃ setting : Setting, setting.name = name ∧ setting.scalar = scalar) →
    ∃ cause, result = .error (.parse p cause)

section Loading

variable {disk : Disk} {p : Path} {file : Padded Spelling} {ms : List (Member Spelling)}

theorem isLoadedAs_of_spelled (hread : disk.read p = .ok file.bytes)
    (hms : file.inner.members? = some ms) : IsLoadedAs (load disk p) p (ms.map Member.seen) := by
  have hrefused : (¬ ∃ settings, Sets (ms.map Member.seen) settings
      ∧ (settings.map Setting.name).Nodup) →
      ∃ cause, load disk p = .error (.parse p cause) := by
    intro hnone
    refine exists_parse_of_ne_ok hread fun config hload => hnone ?_
    obtain ⟨settings, hsets, hnodup, -⟩ := (load_eq_ok_iff hread hms).mp hload
    exact ⟨settings, hsets, hnodup⟩
  refine ⟨fun settings hlists hnodup => ?_, fun hnone => hrefused ?_,
    fun name hname htwice => hrefused ?_, fun name hname scalar hmem hnone => hrefused ?_⟩
  · obtain ⟨listed, hperm, hsets⟩ := hlists.exists_sets
    have hlisted : (listed.map Setting.name).Nodup := (hperm.map Setting.name).nodup_iff.mpr hnodup
    exact (load_eq_ok_iff hread hms).mpr ⟨listed, hsets, hlisted,
      Setting.foldl_applyTo_perm hperm hlisted default⟩
  · rintro ⟨settings, hsets, hnodup⟩
    exact hnone ⟨settings, hsets.lists, hnodup⟩
  · rintro ⟨settings, hsets, hnodup⟩
    have hone := List.nodup_iff_count_le_one.mp hnodup name
    rw [hsets.count_eq hname] at htwice
    omega
  · rintro ⟨settings, hsets, -⟩
    exact hnone (hsets.exists_setting hname hmem)

/-- An object in memory that was printed is spelled, with what is seen of its members. -/
theorem isLoadedAs_of_printed {sp : Spacing} {ms : List (String × Document)}
    (hread : disk.read p = .ok ((Document.object ms).print sp 0)) :
    IsLoadedAs (load disk p) p (ms.map Document.seen) := by
  obtain ⟨file, members, hbytes, hmembers, hprinted⟩ := Document.exists_padded_of_object sp ms
  rw [← hbytes] at hread
  rw [← Document.seen_of_isPrintedAs hprinted]
  exact isLoadedAs_of_spelled hread hmembers

end Loading

/-- Only two members may be unset. -/
theorem Setting.name_of_scalar_null {setting : Setting} (h : setting.scalar = .null) :
    setting.name = "sign_endpoint" ∨ setting.name = "seed_path" := by
  cases setting with
  | signEndpoint _ => exact Or.inl rfl
  | seedPath _ => exact Or.inr rfl
  | _ => cases h

/-- A number is a timeout if it is written without a sign, a fraction and an exponent and fits 64
bits. -/
theorem exists_timeout_iff {l : Literal} :
    (∃ setting : Setting, setting.name = "request_timeout_secs"
      ∧ setting.scalar = (Spelling.number l).scalar)
      ↔ l.negative = false ∧ l.isInteger = true ∧ l.whole.value ≤ 0xFFFFFFFFFFFFFFFF := by
  have hinteger : ∀ n : UInt64, (Setting.timeoutSeconds n).scalar = (Spelling.number l).scalar
      ↔ (Spelling.number l).integer? = some (n.toNat : Int) := by
    intro n
    rw [← Spelling.integer?_scalar, Scalar.integer?_eq_some_iff]
    exact eq_comm
  constructor
  · rintro ⟨setting, hname, hscalar⟩
    cases setting with
    | timeoutSeconds n =>
      have hn := n.toNat_lt
      have hsome := (hinteger n).mp hscalar
      rw [Spelling.integer?] at hsome
      split at hsome
      · next hwhole =>
        obtain ⟨hwritten, hsign⟩ := hwhole
        rw [Option.some_inj, Literal.integer] at hsome
        -- a minus sign would leave no number but zero, and zero has none
        rcases hnegative : l.negative with _ | _
        · rw [hnegative, if_neg Bool.false_ne_true] at hsome
          exact ⟨rfl, hwritten, by omega⟩
        · rw [hnegative, if_pos rfl] at hsome
          exact absurd ⟨hnegative, by omega⟩ hsign
      · cases hsome
    | _ => exact absurd hname (by simp [Setting.name])
  · rintro ⟨hnegative, hwritten, hgreatest⟩
    refine ⟨.timeoutSeconds (UInt64.ofNat l.whole.value), rfl, (hinteger _).mpr ?_⟩
    have hsign : ¬ (l.negative = true ∧ l.whole.value = 0) := by simp [hnegative]
    have hlt : l.whole.value < 2 ^ 64 := by omega
    rw [Spelling.integer?, if_pos ⟨hwritten, hsign⟩, Literal.integer, hnegative,
      if_neg Bool.false_ne_true, UInt64.toNat_ofNat', Nat.mod_eq_of_lt hlt]

/-- A file is loaded as the default configuration with its settings, whoever wrote it, and so is one
that was printed. Two of the members may be `null`, and a timeout is what fits 64 bits without a
sign. -/
theorem load_partial :
    (∀ (disk : Disk) (p : Path) (file : Padded Spelling) (ms : List (Member Spelling)),
      disk.read p = .ok file.bytes → file.inner.members? = some ms →
      IsLoadedAs (load disk p) p (ms.map Member.seen))
    ∧ (∀ (disk : Disk) (p : Path) (sp : Spacing) (ms : List (String × Document)),
      disk.read p = .ok ((Document.object ms).print sp 0) →
      IsLoadedAs (load disk p) p (ms.map Document.seen))
    ∧ (∀ setting : Setting, setting.scalar = .null →
      setting.name = "sign_endpoint" ∨ setting.name = "seed_path")
    ∧ ∀ l : Literal,
      (∃ setting : Setting, setting.name = "request_timeout_secs"
          ∧ setting.scalar = (Spelling.number l).scalar)
        ↔ l.negative = false ∧ l.isInteger = true ∧ l.whole.value ≤ 0xFFFFFFFFFFFFFFFF :=
  ⟨fun _ _ _ _ hread hms => isLoadedAs_of_spelled hread hms,
    fun _ _ _ _ hread => isLoadedAs_of_printed hread,
    fun _ => Setting.name_of_scalar_null, fun _ => exists_timeout_iff⟩

/-- Half of the members in an unusual order behind one that holds all their names; the same with a
flag that is set twice, and with a label that is unset; and a file with blanks, in which a timeout
is written as minus zero. -/
theorem load_partial_unusual :
    let disk (content : Bytes) : Disk := ⟨[("c.json", .file content)], []⟩
    let one := Document.number (.integer 1 (by decide))
    let note := ("note", Document.object [("use_signed_url", .null), ("volume_label", one)])
    let timeout :=
      ("request_timeout_secs", Document.number (.integer 18446744073709551615 (by decide)))
    let endpoint := ("sign_endpoint", Document.null)
    let flag := ("use_signed_url", Document.bool true)
    let blank : Blanks := ⟨[0x0A, 0x20], by simp [isBlankByte]⟩
    let zero := Spelling.number ⟨true, ⟨0, []⟩, none, none, fun _ => rfl⟩
    let member : Member Spelling :=
      ⟨⟨blank, .ofText "request_timeout_secs", blank⟩, blank, zero, blank⟩
    load (disk (Document.object [note, timeout, endpoint, flag]).compact) ⟨"c.json"⟩
        = .ok { default with useSignedUrl := true, timeoutSeconds := 18446744073709551615 }
      ∧ (∃ cause, load (disk (Document.object [flag, note, flag]).compact) ⟨"c.json"⟩
        = .error (.parse ⟨"c.json"⟩ cause))
      ∧ (∃ cause, load (disk (Document.object [flag, ("volume_label", .null)]).pretty) ⟨"c.json"⟩
        = .error (.parse ⟨"c.json"⟩ cause))
      ∧ ∃ cause, load (disk (Padded.bytes ⟨blank, .object member [], blank⟩)) ⟨"c.json"⟩
        = .error (.parse ⟨"c.json"⟩ cause) := by
  intro disk one note timeout endpoint flag blank zero member
  have hread : ∀ content, (disk content).read ⟨"c.json"⟩ = .ok content := fun content => rfl
  obtain ⟨hspelled, hprinted, hnull, htimeout⟩ := load_partial
  refine ⟨?_, ?_, ?_, ?_⟩
  · have hsets : Sets ([note, timeout, endpoint, flag].map Document.seen)
        [.timeoutSeconds 18446744073709551615, .signEndpoint none, .useSignedUrl true] :=
      .other _ (by decide) (.setting (.timeoutSeconds 18446744073709551615)
        (.setting (.signEndpoint none) (.setting (.useSignedUrl true) .nil)))
    exact (hprinted _ _ .none _ (hread _)).accepted _ hsets.lists (by decide)
  · exact (hprinted _ _ .none _ (hread _)).twice "use_signed_url" (by decide) (by decide)
  · refine (hprinted _ _ .indented _ (hread _)).mistyped "volume_label" (by decide) .null
      (by decide) ?_
    rintro ⟨setting, hname, hscalar⟩
    rcases hnull setting hscalar with h | h
    · exact absurd (hname.symm.trans h) (by decide)
    · exact absurd (hname.symm.trans h) (by decide)
  · refine (hspelled _ _ _ _ (hread _) rfl).mistyped "request_timeout_secs" (by decide) zero.scalar
      (.head _) ?_
    intro h
    exact absurd ((htimeout _).mp h).1 (by decide)

end BootTrust.Config
