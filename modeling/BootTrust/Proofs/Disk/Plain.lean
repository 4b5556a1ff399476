import BootTrust.Proofs.Disk.Resolve
/-
Reading at plain paths. A plain path spells its location name by name (`locate_of_isPlain`), so what
a reader finds there can be said about what is seen on the way.

A reader that reports a missing file has met nothing at some name and only directories before it. So
nothing is seen at the location, and no file stands on the way (`FileFree`). Conversely these two
facts are all that is needed for a file to be reported as missing (`read_missing`), provided that
the system accepts the names: a name that is too long is reported as soon as the directory before it
is there, and not as long as it is missing.
-/

set_option autoImplicit false

namespace BootTrust

namespace Path

/-- A plain path has a last name. -/
theorem exists_names_of_isPlain {p : Path} (h : p.isPlain = true) :
    ∃ above name, p.names = above ++ [name] := by
  obtain ⟨init, name, -, -, hcomponents⟩ := exists_parts_of_isPlain h
  rw [names, hcomponents, List.filterMap_append]
  exact ⟨_, name, rfl⟩

end Path

namespace Disk

/-- Where the components of a path start from. -/
def base (disk : Disk) (p : Path) : Location :=
  if p.isAbsolute then [] else disk.here

/-- Whether no file stands on the way from a location along some names, up to the last of them. -/
def FileFree (disk : Disk) (place : Location) (names : List String) : Prop :=
  ∀ before, before <+: names → before ≠ [] → ∀ content,
    disk.surface? (place ++ before) ≠ some (.file content)

/-! ## Locations -/

theorem foldl_follow_names (place : Location) (names : List String) :
    (names.map Component.name).foldl Location.follow place = place ++ names := by
  induction names generalizing place with
  | nil => rw [List.append_nil]; rfl
  | cons name names ih =>
    rw [List.map_cons, List.foldl_cons, ih, Location.follow, List.append_assoc]
    rfl

/-- The front of a path and some names spell these names, from where the path starts. -/
theorem foldl_follow_front (disk : Disk) (p : Path) (names : List String) :
    (p.front ++ names.map Component.name).foldl Location.follow disk.here
      = disk.base p ++ names := by
  rw [List.foldl_append, base, Path.front]
  split
  · exact foldl_follow_names [] names
  · exact foldl_follow_names disk.here names

theorem locate_of_isPlain {disk : Disk} {p : Path} (h : p.isPlain = true) :
    disk.locate p = disk.base p ++ p.names := by
  rw [locate, Path.components_of_isPlain h, foldl_follow_front]

/-! ## What is seen on the way -/

/-- Below a location where nothing is seen, nothing is seen. -/
theorem surface?_below_none {disk : Disk} {place : Location} (h : disk.surface? place = none)
    (below : Location) : disk.surface? (place ++ below) = none := by
  rcases below with _ | ⟨name, below⟩
  · rw [List.append_nil, h]
  · by_contra hsome
    rw [surface?_above hsome] at h
    simp at h

theorem fileFree_cons {disk : Disk} {place : Location} {name : String} {names : List String} :
    disk.FileFree place (name :: names) ↔
      (∀ content, disk.surface? (place ++ [name]) ≠ some (.file content))
        ∧ disk.FileFree (place ++ [name]) names := by
  constructor
  · intro h
    refine ⟨h [name] (by simp) (by simp), fun before hbefore hne => ?_⟩
    have := h (name :: before) (by simpa using hbefore) (by simp)
    rwa [List.append_assoc]
  · rintro ⟨hname, hnames⟩ before hbefore hne
    rcases before with _ | ⟨first, before⟩
    · exact absurd rfl hne
    obtain ⟨rfl, hrest⟩ := List.cons_prefix_cons.mp hbefore
    by_cases hnil : before = []
    · rw [hnil]
      exact hname
    · have := hnames before hrest hnil
      rwa [List.append_assoc] at this

theorem fileFree_append {disk : Disk} {place : Location} {above below : List String} :
    disk.FileFree place (above ++ below) ↔
      disk.FileFree place above ∧ disk.FileFree (place ++ above) below := by
  induction above generalizing place with
  | nil =>
    rw [List.nil_append, List.append_nil]
    refine ⟨fun h => ⟨fun before hbefore hne => ?_, h⟩, And.right⟩
    exact absurd (List.prefix_nil.mp hbefore) hne
  | cons name above ih =>
    rw [List.cons_append, fileFree_cons, fileFree_cons, ih, List.append_assoc, and_assoc]
    rfl

theorem fileFree_of_none {disk : Disk} {place : Location} (h : disk.surface? place = none)
    (names : List String) : disk.FileFree place names := by
  intro before _ _ content
  rw [surface?_below_none h before]
  simp

/-- On the way to a directory stand directories. -/
theorem fileFree_of_directory {disk : Disk} {place : Location} {names : List String}
    (h : disk.surface? (place ++ names) = some .directory) : disk.FileFree place names := by
  rintro before ⟨rest, rfl⟩ _ content hfile
  rcases rest with _ | ⟨name, below⟩
  · rw [List.append_nil, hfile] at h
    simp at h
  · rw [← List.append_assoc] at h
    rw [surface?_above (by rw [h]; simp)] at hfile
    simp at hfile

/-! ## Walks along names -/

theorem checkName_kind {name : String} {cause : IoFailure} (h : checkName name = .error cause) :
    cause.kind ≠ .notFound := by
  unfold checkName at h
  split at h
  · cases h
    decide
  · simp at h

/-- A walk that meets a missing name has met no file, and leads to where nothing is seen. -/
theorem foldlM_enter_notFound {disk : Disk} {place : Location} {names : List String}
    {cause : IoFailure} (h : (names.map Component.name).foldlM disk.enter place = .error cause)
    (hkind : cause.kind = .notFound) :
    disk.surface? (place ++ names) = none ∧ disk.FileFree place names := by
  induction names generalizing place with
  | nil => cases h
  | cons name names ih =>
    rw [List.map_cons, List.foldlM_cons] at h
    rw [fileFree_cons, List.append_cons]
    -- the first name is missing, or it is a directory and the walk goes on from there
    rcases Steps.bind_eq_error_iff.mp h with h | ⟨next, hnext, h⟩
    · rcases Steps.bind_eq_error_iff.mp h with h | ⟨-, -, h⟩
      · exact absurd hkind (checkName_kind h)
      split at h
      · next hfind =>
        have hnone := surface?_eq_none_iff.mpr hfind
        refine ⟨surface?_below_none hnone names, ?_, fileFree_of_none hnone names⟩
        intro content
        rw [hnone]
        simp
      · cases h
        exact absurd hkind (by decide)
      · simp at h
    · obtain ⟨-, -, hnext⟩ := Steps.bind_eq_ok_iff.mp hnext
      split at hnext
      · simp at hnext
      · simp at hnext
      · next entries hfind =>
        cases hnext
        obtain ⟨hnone, hfree⟩ := ih h
        refine ⟨hnone, ?_, hfree⟩
        intro content
        rw [surface?_eq_directory_iff.mpr ⟨entries, hfind⟩]
        simp

/-- Whether the system accepts a name. -/
def NameFits (name : String) : Prop :=
  (Utf8.encode name).length ≤ nameLimit

theorem checkName_eq_ok {name : String} (h : NameFits name) : checkName name = .ok () := by
  rw [checkName, if_neg]
  exact Nat.not_lt.mpr h

theorem nameFits_of_checkName {name : String} {u : Unit} (h : checkName name = .ok u) :
    NameFits name := by
  unfold checkName at h
  split at h
  · simp at h
  · next hlen => exact Nat.not_lt.mp hlen

/-- A walk on which no file stands and every name fits leads to the end or to a missing name. -/
theorem foldlM_enter_of_fileFree {disk : Disk} {place : Location} {names : List String}
    (hfits : ∀ name ∈ names, NameFits name) (hfree : disk.FileFree place names) :
    (names.map Component.name).foldlM disk.enter place = .ok (place ++ names)
      ∨ (names.map Component.name).foldlM disk.enter place = .error IoFailure.missing := by
  induction names generalizing place with
  | nil =>
    left
    rw [List.append_nil]
    rfl
  | cons name names ih =>
    obtain ⟨hname, hfree⟩ := fileFree_cons.mp hfree
    rw [List.map_cons, List.foldlM_cons, List.append_cons]
    have hcheck : checkName name = .ok () := checkName_eq_ok (hfits name List.mem_cons_self)
    -- nothing, a file or a directory may be there; a file is excluded
    rcases hfind : disk.find? (place ++ [name]) with _ | content | entries
    · right
      simp only [enter, hcheck, hfind]
      rfl
    · exact absurd (surface?_eq_file_iff.mpr hfind) (hname content)
    · have hnext : disk.enter place (.name name) = .ok (place ++ [name]) := by
        simp only [enter, hcheck, hfind]
        rfl
      rw [hnext]
      exact ih (fun name hmem => hfits name (List.mem_cons_of_mem _ hmem)) hfree

/-- The front of a path and some names lead along these names from where the path starts, which has
to be a directory. -/
theorem walk_names (disk : Disk) (p : Path) (names : List String) :
    disk.walk (p.front ++ names.map .name)
      = if disk.surface? (disk.base p) = some .directory
        then (names.map Component.name).foldlM disk.enter (disk.base p)
        else .error IoFailure.missing := by
  unfold base Path.front
  by_cases habs : p.isAbsolute = true
  · rw [if_pos habs, if_pos habs, if_pos disk.surface?_root]
    rfl
  · rw [if_neg habs, if_neg habs, List.nil_append]
    -- names alone are followed from the current directory, whichever they are
    have hstart : disk.start (names.map .name)
        = if disk.surface? disk.here = some .directory then .ok disk.here
          else .error IoFailure.missing := by
      have hnames : disk.start (names.map .name) = disk.start [] := by
        rcases names with _ | ⟨name, names⟩ <;> rfl
      rw [hnames, surface?]
      unfold start
      rcases disk.find? disk.here with _ | content | entries <;> rfl
    unfold walk
    rw [hstart]
    split <;> rfl

theorem walk_names_notFound {disk : Disk} {p : Path} {names : List String} {cause : IoFailure}
    (h : disk.walk (p.front ++ names.map .name) = .error cause)
    (hkind : cause.kind = .notFound) :
    disk.FileFree (disk.base p) names
      ∧ ∀ name below, disk.surface? (disk.base p ++ (names ++ name :: below)) = none := by
  rw [walk_names] at h
  split at h
  · obtain ⟨hnone, hfree⟩ := foldlM_enter_notFound h hkind
    refine ⟨hfree, fun name below => ?_⟩
    rw [← List.append_assoc]
    exact surface?_below_none hnone _
  · next hbase =>
    -- not even the base is there, so nothing is seen behind it
    have hbelow : ∀ name below, disk.surface? (disk.base p ++ name :: below) = none := by
      intro name below
      by_contra hsome
      exact hbase (surface?_above hsome)
    refine ⟨fun before _ hne content => ?_, fun name below => ?_⟩
    · rcases before with _ | ⟨first, before⟩
      · exact absurd rfl hne
      · rw [hbelow]
        simp
    · rcases names with _ | ⟨first, names⟩
      · exact hbelow name below
      · exact hbelow first _

/-! ## Reading -/

theorem check_kind {p : Path} {cause : IoFailure} (h : p.check = .error cause) :
    cause.kind ≠ .notFound := by
  unfold Path.check at h
  split at h
  · cases h
    decide
  · split at h
    · cases h
      decide
    · simp at h

theorem resolve_of_names {disk : Disk} {p : Path} (h : p.isPlain = true) {above : List String}
    {name : String} (hnames : p.names = above ++ [name]) :
    disk.resolve p = (do
      p.check
      let place ← disk.walk (p.front ++ above.map .name)
      checkName name
      return .entry (place ++ [name])) := by
  have hcomponents : p.components
      = (p.front ++ above.map .name) ++ [.name name] := by
    rw [Path.components_of_isPlain h, hnames, List.map_append, ← List.append_assoc]
    rfl
  unfold resolve target
  rw [hcomponents, List.getLast?_concat, List.dropLast_concat]

/-- The system accepts every name of a walk that gets to its end. -/
theorem nameFits_of_foldlM_enter {disk : Disk} {place last : Location} {names : List String}
    (h : (names.map Component.name).foldlM disk.enter place = .ok last) :
    ∀ name ∈ names, NameFits name := by
  induction names generalizing place with
  | nil =>
    intro name hname
    simp at hname
  | cons first names ih =>
    rw [List.map_cons, List.foldlM_cons] at h
    obtain ⟨next, hnext, h⟩ := Steps.bind_eq_ok_iff.mp h
    obtain ⟨u, hcheck, -⟩ := Steps.bind_eq_ok_iff.mp hnext
    intro name hname
    rcases List.mem_cons.mp hname with rfl | hname
    · exact nameFits_of_checkName hcheck
    · exact ih h name hname

/-- The system accepts every name of a plain path that leads somewhere. -/
theorem nameFits_of_resolve {disk : Disk} {p : Path} {t : Target} (h : p.isPlain = true)
    (hres : disk.resolve p = .ok t) : ∀ name ∈ p.names, NameFits name := by
  obtain ⟨above, last, hnames⟩ := Path.exists_names_of_isPlain h
  rw [resolve_of_names h hnames] at hres
  obtain ⟨-, -, hres⟩ := Steps.bind_eq_ok_iff.mp hres
  obtain ⟨place, hwalk, hres⟩ := Steps.bind_eq_ok_iff.mp hres
  obtain ⟨u, hcheck, -⟩ := Steps.bind_eq_ok_iff.mp hres
  rw [walk_names] at hwalk
  split at hwalk
  · intro name hname
    rw [hnames] at hname
    rcases List.mem_append.mp hname with hname | hname
    · exact nameFits_of_foldlM_enter hwalk name hname
    · rw [List.mem_singleton.mp hname]
      exact nameFits_of_checkName hcheck
  · simp at hwalk

/-- A name at the end of a path that is too long is reported if the directory before it is there. -/
theorem read_nameTooLong {disk : Disk} {p : Path} (h : p.isPlain = true) {above : List String}
    {name : String} {place : Location} (hnames : p.names = above ++ [name])
    (hcheck : p.check = .ok ()) (hwalk : disk.walk (p.front ++ above.map .name) = .ok place)
    (hlong : ¬ NameFits name) : disk.read p = .error IoFailure.nameTooLong := by
  have hname : checkName name = .error IoFailure.nameTooLong := by
    rw [checkName, if_pos]
    exact Nat.not_le.mp hlong
  unfold read
  rw [resolve_of_names h hnames, hcheck, hwalk, hname]
  rfl

/-- Where a file is reported as missing there is none, and there is none on the way. -/
theorem read_notFound {disk : Disk} {p : Path} (h : p.isPlain = true) {cause : IoFailure}
    (hread : disk.read p = .error cause) (hkind : cause.kind = .notFound) :
    p.check = .ok () ∧ disk.surface? (disk.locate p) = none
      ∧ disk.FileFree (disk.base p) p.names := by
  obtain ⟨above, name, hnames⟩ := Path.exists_names_of_isPlain h
  have hspell : disk.locate p = disk.base p ++ (above ++ [name]) := by
    rw [locate_of_isPlain h, hnames]
  rw [hspell, hnames, fileFree_append]
  rcases Steps.bind_eq_error_iff.mp hread with hres | ⟨t, hres, hrest⟩
  -- the path leads nowhere: only the walk reports this as missing
  · rw [resolve_of_names h hnames] at hres
    rcases Steps.bind_eq_error_iff.mp hres with hcheck | ⟨u, hcheck, hres⟩
    · exact absurd hkind (check_kind hcheck)
    rcases Steps.bind_eq_error_iff.mp hres with hwalk | ⟨place, hwalk, hres⟩
    · obtain ⟨hfree, hnone⟩ := walk_names_notFound hwalk hkind
      refine ⟨hcheck, hnone name [], hfree, ?_⟩
      rw [fileFree_cons, List.append_assoc, hnone name []]
      exact ⟨by simp, fileFree_of_none (hnone name []) []⟩
    rcases Steps.bind_eq_error_iff.mp hres with hname | ⟨-, -, hres⟩
    · exact absurd hkind (checkName_kind hname)
    · cases hres
  -- the path leads to a name in a directory, and nothing is there
  · have hres' := hres
    rw [resolve_of_names h hnames] at hres'
    obtain ⟨u, hcheck, hres'⟩ := Steps.bind_eq_ok_iff.mp hres'
    obtain ⟨place, hwalk, hres'⟩ := Steps.bind_eq_ok_iff.mp hres'
    obtain ⟨-, -, hres'⟩ := Steps.bind_eq_ok_iff.mp hres'
    cases hres'
    obtain ⟨hplace, hdir⟩ := walk_ok hwalk
    rw [foldl_follow_front] at hplace
    subst hplace
    simp only at hrest
    split at hrest
    · next hfind =>
      have hnone := surface?_eq_none_iff.mpr hfind
      rw [List.append_assoc] at hnone
      refine ⟨hcheck, hnone, fileFree_of_directory hdir, ?_⟩
      rw [fileFree_cons, List.append_assoc, hnone]
      exact ⟨by simp, fileFree_of_none hnone []⟩
    · cases hrest
      exact absurd hkind (by decide)
    · split at hrest
      · cases hrest
        exact absurd hkind (by decide)
      · simp at hrest

/-- Where there is no file, and none on the way, a file is reported as missing. -/
theorem read_missing {disk : Disk} {p : Path} (h : p.isPlain = true) (hcheck : p.check = .ok ())
    (hfits : ∀ name ∈ p.names, NameFits name) (hnone : disk.surface? (disk.locate p) = none)
    (hfree : disk.FileFree (disk.base p) p.names) : disk.read p = .error IoFailure.missing := by
  obtain ⟨above, name, hnames⟩ := Path.exists_names_of_isPlain h
  rw [hnames] at hfits hfree
  rw [locate_of_isPlain h, hnames, ← List.append_assoc, surface?_eq_none_iff] at hnone
  obtain ⟨hfree, -⟩ := fileFree_append.mp hfree
  have hfits' : ∀ name ∈ above, NameFits name := fun name hmem =>
    hfits name (List.mem_append_left _ hmem)
  have hname : checkName name = .ok () := checkName_eq_ok (hfits name (by simp))
  have hwalk := walk_names disk p above
  unfold read
  rw [resolve_of_names h hnames, hcheck, hwalk]
  -- the walk gets to the directory of the last name, or a directory is missing before
  split
  · rcases foldlM_enter_of_fileFree hfits' hfree with hok | hmissing
    · rw [hok, hname]
      simp only [bind, Except.bind, pure, Except.pure, hnone]
    · rw [hmissing]
      rfl
  · rfl

end Disk

end BootTrust
