import BootTrust.Proofs.Disk.Replace
/-
Reading as a walk. Whoever reads at a plain path meets one name after another, and what is
seen at each of them decides whether it goes on: nothing, a file, or a directory
(`readAlong`). That is all a reader knows of the disk, so two disks that show the same along
the path are read alike (`read_congr`).

While directories are made on the way to a path, a reader notices next to nothing
(`findsOld_of_grows`). A file is not read differently, and a missing file stays missing, since a new
directory is empty. The one thing that can change is the reason that is given for it: with a name
that is too long, the reader is told so as soon as the directory before that name is there.
-/

set_option autoImplicit false

namespace BootTrust.Disk

/-- What a reader meets along some names, from a directory on. -/
def readAlong (disk : Disk) : Location → List String → Except IoFailure Bytes
  | _, [] => .error IoFailure.isADirectory
  | place, name :: names => do
    checkName name
    match disk.surface? (place ++ [name]) with
    | none => .error IoFailure.missing
    | some (.file content) => if names = [] then .ok content else .error IoFailure.notADirectory
    | some .directory => disk.readAlong (place ++ [name]) names

variable {disk now : Disk} {place way : Location} {p : Path}

/-! ## A reader is a walk -/

theorem readAlong_of_long {name : String} (names : List String) (h : ¬ NameFits name) :
    disk.readAlong place (name :: names) = .error IoFailure.nameTooLong := by
  rw [readAlong, checkName, if_pos (Nat.not_le.mp h)]
  rfl

theorem readAlong_of_fits {name : String} (names : List String) (h : NameFits name) :
    disk.readAlong place (name :: names)
      = match disk.surface? (place ++ [name]) with
        | none => .error IoFailure.missing
        | some (.file content) => if names = [] then .ok content else .error IoFailure.notADirectory
        | some .directory => disk.readAlong (place ++ [name]) names := by
  rw [readAlong, checkName_eq_ok h]
  rfl

/-- The names before the last one are followed from directory to directory, and the last one is
opened. -/
theorem readAlong_concat (disk : Disk) (place : Location) (above : List String) (last : String) :
    disk.readAlong place (above ++ [last]) = (do
      let place ← (above.map Component.name).foldlM disk.enter place
      checkName last
      match disk.find? (place ++ [last]) with
      | none => .error IoFailure.missing
      | some (.directory _) => .error IoFailure.isADirectory
      | some (.file content) => .ok content) := by
  induction above generalizing place with
  | nil =>
    rw [List.nil_append, readAlong, List.map_nil, List.foldlM_nil, pure_bind, surface?]
    rcases checkName last with cause | ⟨⟩
    · rfl
    rcases disk.find? (place ++ [last]) with _ | content | entries <;> rfl
  | cons name above ih =>
    rw [List.cons_append, readAlong, List.map_cons, List.foldlM_cons, enter]
    rcases checkName name with cause | ⟨⟩
    · rfl
    rw [surface?]
    rcases disk.find? (place ++ [name]) with _ | content | entries
    · rfl
    · -- a file, and the path goes on
      have hne : above ++ [last] ≠ [] := by simp
      show (if above ++ [last] = [] then _ else _) = _
      rw [if_neg hne]
      rfl
    · exact ih (place ++ [name])

theorem read_eq_readAlong (h : p.isPlain = true) (disk : Disk) :
    disk.read p = (do
      p.check
      if disk.surface? (disk.base p) = some .directory then disk.readAlong (disk.base p) p.names
      else .error IoFailure.missing) := by
  obtain ⟨above, last, hnames⟩ := Path.exists_names_of_isPlain h
  have hopen : p.endsOpen = false := by
    simp only [Path.isPlain, Bool.and_eq_true, Bool.not_eq_true'] at h
    exact h.2
  rw [read, resolve_of_names h hnames, hnames, readAlong_concat, walk_names]
  rcases p.check with cause | ⟨⟩
  · rfl
  by_cases hbase : disk.surface? (disk.base p) = some .directory
  · rw [if_pos hbase, if_pos hbase]
    rcases (above.map Component.name).foldlM disk.enter (disk.base p) with cause | place
    · rfl
    rcases checkName last with cause | ⟨⟩
    · rfl
    simp only [bind, Except.bind, pure, Except.pure, hopen]
    rcases disk.find? (place ++ [last]) with _ | content | entries <;> rfl
  · rw [if_neg hbase, if_neg hbase]
    rfl

/-! ## Disks that look alike -/

theorem readAlong_congr {names : List String}
    (h : ∀ before, before <+: names → before ≠ [] →
      now.surface? (place ++ before) = disk.surface? (place ++ before)) :
    now.readAlong place names = disk.readAlong place names := by
  induction names generalizing place with
  | nil => rfl
  | cons name names ih =>
    have hname : now.surface? (place ++ [name]) = disk.surface? (place ++ [name]) :=
      h [name] (by simp) (by simp)
    have hnames : now.readAlong (place ++ [name]) names
        = disk.readAlong (place ++ [name]) names := by
      refine ih fun before hbefore _ => ?_
      rw [List.append_assoc]
      exact h (name :: before) (by simpa using hbefore) (List.cons_ne_nil _ _)
    rw [readAlong, readAlong, hname, hnames]

/-- Two disks that show the same on the way to a path are read alike there. -/
theorem read_congr (h : p.isPlain = true) (hhere : now.here = disk.here)
    (hsame : ∀ before, before <+: p.names →
      now.surface? (disk.base p ++ before) = disk.surface? (disk.base p ++ before)) :
    now.read p = disk.read p := by
  have hbase : now.base p = disk.base p := by
    rw [base, base, hhere]
  have hstart := hsame [] List.nil_prefix
  rw [List.append_nil] at hstart
  rw [read_eq_readAlong h, read_eq_readAlong h, hbase, hstart,
    readAlong_congr fun before hbefore _ => hsame before hbefore]

/-! ## While directories are made -/

/-- From a directory that was not there before, a reader finds nothing: the next name is missing or
too long, or it is another new directory. The way ends before the last name. -/
theorem readAlong_fresh (grows : Grows way disk now) {names : List String}
    (hway : way = (place ++ names).dropLast) (hplace : place <+: way)
    (hnone : disk.surface? place = none) :
    now.readAlong place names = .error IoFailure.missing
      ∨ now.readAlong place names = .error IoFailure.nameTooLong
        ∧ ∃ name ∈ names, ¬ NameFits name := by
  induction names generalizing place with
  | nil =>
    -- the way would be as long as the path
    have hlength := hplace.length_le
    rw [hway, List.append_nil, List.length_dropLast] at hlength
    have hnil : place = [] := List.length_eq_zero_iff.mp (by omega)
    rw [hnil, surface?_root] at hnone
    simp at hnone
  | cons name names ih =>
    by_cases hfits : NameFits name
    · rw [readAlong_of_fits names hfits]
      rw [List.append_cons] at hway
      have hbelow := surface?_below_none hnone [name]
      rcases grows.change (place ++ [name]) with hsame | ⟨-, hdir, hon⟩
      · rw [hsame, hbelow]
        exact Or.inl rfl
      · rw [hdir]
        rcases ih hway hon hbelow with hmissing | ⟨hlong, other, hmem, hother⟩
        · exact Or.inl hmissing
        · exact Or.inr ⟨hlong, other, List.mem_cons_of_mem _ hmem, hother⟩
    · exact Or.inr ⟨readAlong_of_long names hfits, name, List.mem_cons_self, hfits⟩

theorem readAlong_grows (grows : Grows way disk now) {names : List String}
    (hway : way = (place ++ names).dropLast) :
    now.readAlong place names = disk.readAlong place names
      ∨ disk.readAlong place names = .error IoFailure.missing
        ∧ now.readAlong place names = .error IoFailure.nameTooLong
        ∧ ∃ name ∈ names, ¬ NameFits name := by
  induction names generalizing place with
  | nil => exact Or.inl rfl
  | cons name names ih =>
    by_cases hfits : NameFits name
    · rw [readAlong_of_fits names hfits, readAlong_of_fits names hfits]
      rw [List.append_cons] at hway
      -- what was seen at the name: only where there was nothing it can be something else now
      rcases hseen : disk.surface? (place ++ [name]) with _ | content | _
      · rcases grows.change (place ++ [name]) with hsame | ⟨-, hdir, hon⟩
        · rw [hsame, hseen]
          exact Or.inl rfl
        · rw [hdir]
          rcases readAlong_fresh grows hway hon hseen with hmissing | ⟨hlong, other, hmem, hother⟩
          · exact Or.inl hmissing
          · exact Or.inr ⟨rfl, hlong, other, List.mem_cons_of_mem _ hmem, hother⟩
      · rw [grows.file_iff.mpr hseen]
        exact Or.inl rfl
      · rw [grows.keepsDirectories.directory hseen]
        rcases ih hway with hsame | ⟨hmissing, hlong, other, hmem, hother⟩
        · exact Or.inl hsame
        · exact Or.inr ⟨hmissing, hlong, other, List.mem_cons_of_mem _ hmem, hother⟩
    · left
      rw [readAlong_of_long names hfits, readAlong_of_long names hfits]

/-- The content that is found at a path, if any is. -/
def found? (disk : Disk) (p : Path) : Option Bytes :=
  (disk.read p).toOption

theorem found?_eq_some_iff {content : Bytes} :
    disk.found? p = some content ↔ disk.read p = .ok content :=
  Steps.toOption_eq_some_iff

/-- Whether a reader finds at a path what was found there before. A missing file may have become one
with a name that is too long, if there is such a name on the path. -/
def FindsOld (p : Path) (disk now : Disk) : Prop :=
  now.read p = disk.read p
    ∨ disk.read p = .error IoFailure.missing ∧ now.read p = .error IoFailure.nameTooLong
      ∧ ∃ name ∈ p.names, ¬ NameFits name

/-- Then it is the same content, or there is none now and there was none before. -/
theorem FindsOld.found?_eq (h : FindsOld p disk now) : now.found? p = disk.found? p := by
  rcases h with hsame | ⟨hmissing, hlong, -⟩
  · rw [found?, found?, hsame]
  · rw [found?, found?, hmissing, hlong]
    rfl

/-- New directories on the way to a path hide nothing from a reader, and add nothing. -/
theorem findsOld_of_grows (h : p.isPlain = true) (grows : Grows (disk.locate p).dropLast disk now) :
    FindsOld p disk now := by
  have hbase : now.base p = disk.base p := by
    rw [base, base, grows.here]
  have hway : (disk.locate p).dropLast = (disk.base p ++ p.names).dropLast := by
    rw [locate_of_isPlain h]
  unfold FindsOld
  rw [read_eq_readAlong h now, read_eq_readAlong h disk, hbase]
  rcases p.check with cause | ⟨⟩
  · exact Or.inl rfl
  show (if now.surface? (disk.base p) = some .directory then _ else _)
      = (if disk.surface? (disk.base p) = some .directory then _ else _) ∨ _
  by_cases hdir : disk.surface? (disk.base p) = some .directory
  · have hdir' := grows.keepsDirectories.directory hdir
    simp only [bind, Except.bind, if_pos hdir, if_pos hdir']
    exact readAlong_grows grows hway
  -- the directory of relative paths was not there
  · by_cases hdir' : now.surface? (disk.base p) = some .directory
    · simp only [bind, Except.bind, if_neg hdir, if_pos hdir']
      have hnew := (grows.change (disk.base p)).resolve_left fun hsame => hdir (hsame ▸ hdir')
      rcases readAlong_fresh grows hway hnew.2.2 hnew.1 with hmissing | ⟨hlong, hname⟩
      · exact Or.inl hmissing
      · exact Or.inr ⟨trivial, hlong, hname⟩
    · left
      rw [if_neg hdir, if_neg hdir']

end BootTrust.Disk
