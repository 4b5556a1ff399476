import BootTrust.Proofs.Disk.Plain
/-
What replacing a file does to a disk. The replacement is three tasks in a row: the directories above
the file are made, the content is written under the temporary name beside it, and the temporary file
takes the name of the file. Each of them can fail, and what was done before stays.

Between the first task and the second there is a disk `made`. For a plain path it differs from the
first disk in new directories on the way to the file, and in nothing else (`Grows`). A replacement
that goes well leaves `made` with the new content at the path and nothing at the temporary one
(`replaceFile_ok`). One that fails leaves `made` as it is, or with the new content at the temporary
path, which is another one then (`replaceFile_error`): moving a file to itself never fails once the
file has been written. So a failed replacement does not touch the file, and whoever reads it
afterwards finds what was there.
-/

set_option autoImplicit false

namespace BootTrust

/-! ## Tasks in a row -/

namespace Task

variable {α β : Type} {disk : Disk} {effects : List Effect} {cause : IoFailure}

/-- Tasks in a row end where the first one fails. -/
theorem andThen_error {first : Task α} (next : α → Task β)
    (h : first disk = (effects, .error cause)) :
    first.andThen next disk = (effects, .error cause) := by
  rw [andThen, h]

/-- If the first one goes well, the second one begins on the disk that it leaves. -/
theorem andThen_ok {first : Task α} {a : α} (next : α → Task β)
    (h : first disk = (effects, .ok a)) :
    first.andThen next disk
      = (effects ++ (next a (Effect.applyAll effects disk)).1,
        (next a (Effect.applyAll effects disk)).2) := by
  rw [andThen, h]

theorem attempt_error {call : Disk → Except IoFailure (List Effect)}
    (h : call disk = .error cause) :
    attempt call disk = ([], .error cause) := by
  rw [attempt, h]

theorem attempt_ok {call : Disk → Except IoFailure (List Effect)} (h : call disk = .ok effects) :
    attempt call disk = (effects, .ok ()) := by
  rw [attempt, h]

end Task

namespace Disk

/-! ## New directories -/

/-- Whether one disk becomes another by new directories on the way to a location. -/
structure Grows (way : Location) (disk disk' : Disk) : Prop where
  here : disk'.here = disk.here
  change : ∀ place, disk'.surface? place = disk.surface? place
    ∨ disk.surface? place = none ∧ disk'.surface? place = some .directory ∧ place <+: way

namespace Grows

variable {way : Location} {disk disk' disk'' : Disk}

theorem refl (way : Location) (disk : Disk) : Grows way disk disk :=
  ⟨rfl, fun _ => Or.inl rfl⟩

theorem trans (first : Grows way disk disk') (second : Grows way disk' disk'') :
    Grows way disk disk'' := by
  refine ⟨second.here.trans first.here, fun place => ?_⟩
  rcases second.change place with hsecond | ⟨hnone, hdir, hway⟩
  · rw [hsecond]
    exact first.change place
  · right
    rcases first.change place with hfirst | ⟨-, hdir', -⟩
    · exact ⟨hfirst ▸ hnone, hdir, hway⟩
    · rw [hnone] at hdir'
      simp at hdir'

theorem keepsDirectories (grows : Grows way disk disk') : KeepsDirectories disk disk' := by
  refine ⟨grows.here, fun {place} hplace => ?_⟩
  rcases grows.change place with hsame | ⟨hnone, -, -⟩
  · rw [hsame, hplace]
  · rw [hplace] at hnone
    simp at hnone

/-- No file comes or goes, and none changes. -/
theorem file_iff (grows : Grows way disk disk') {place : Location} {content : Bytes} :
    disk'.surface? place = some (.file content) ↔ disk.surface? place = some (.file content) := by
  rcases grows.change place with hsame | ⟨hnone, hdir, -⟩
  · rw [hsame]
  · rw [hnone, hdir]
    simp

theorem fileFree (grows : Grows way disk disk') {place : Location} {names : List String}
    (h : disk.FileFree place names) : disk'.FileFree place names :=
  fun before hbefore hne content hfile =>
    h before hbefore hne content (grows.file_iff.mp hfile)

/-- What is not on the way does not change. -/
theorem surface?_eq (grows : Grows way disk disk') {place : Location} (h : ¬ place <+: way) :
    disk'.surface? place = disk.surface? place :=
  (grows.change place).resolve_right fun hchange => h hchange.2.2

end Grows

/-- A directory that was not there makes a disk grow. -/
theorem grows_makeDirectory {way place : Location} {disk : Disk} (hentry : disk.IsEntry place)
    (hnone : disk.surface? place = none) (hway : place <+: way) :
    Grows way disk (Effect.apply disk (.makeDirectory place)) := by
  refine ⟨Effect.here_apply _ _, fun other => ?_⟩
  rw [Effect.surface?_makeDirectory hentry hnone]
  by_cases hother : other = place
  · subst hother
    exact Or.inr ⟨hnone, Function.update_self .., hway⟩
  · exact Or.inl (Function.update_of_ne hother ..)

/-- Whether effects make directories on the way to a location, each of them where there was nothing
yet. -/
inductive OpensWay (way : Location) : Disk → List Effect → Prop where
  | done (disk : Disk) : OpensWay way disk []
  | make {disk : Disk} {place : Location} {effects : List Effect} (hentry : disk.IsEntry place)
    (hnone : disk.surface? place = none) (hway : place <+: way)
    (hrest : OpensWay way (Effect.apply disk (.makeDirectory place)) effects) :
    OpensWay way disk (.makeDirectory place :: effects)

namespace OpensWay

variable {way : Location} {disk : Disk} {effects first second : List Effect}

theorem append (hfirst : OpensWay way disk first)
    (hsecond : OpensWay way (Effect.applyAll first disk) second) :
    OpensWay way disk (first ++ second) := by
  induction hfirst with
  | done disk => exact hsecond
  | make hentry hnone hway _ ih => exact .make hentry hnone hway (ih hsecond)

theorem grows (h : OpensWay way disk effects) : Grows way disk (Effect.applyAll effects disk) := by
  induction h with
  | done disk => exact Grows.refl way disk
  | make hentry hnone hway _ ih => exact (grows_makeDirectory hentry hnone hway).trans ih

/-- The first of the effects open the way as far as they go. -/
theorem of_prefix (h : OpensWay way disk effects) (hpre : first <+: effects) :
    OpensWay way disk first := by
  induction h generalizing first with
  | done disk =>
    rw [List.prefix_nil.mp hpre]
    exact .done disk
  | make hentry hnone hway _ ih =>
    rcases List.prefix_cons_iff.mp hpre with rfl | ⟨more, rfl, hmore⟩
    · exact .done _
    · exact .make hentry hnone hway (ih hmore)

/-- A directory is made in a single step. -/
theorem flatMap_steps (h : OpensWay way disk effects) : effects.flatMap Effect.steps = effects := by
  induction h with
  | done disk => rfl
  | make _ _ _ _ ih =>
    rw [List.flatMap_cons, ih]
    rfl

end OpensWay

theorem ensureDirectory_opensWay {way : Location} {disk : Disk} {p : Path} {effects : List Effect}
    (hway : disk.locate p <+: way) (h : ensureDirectory p disk = .ok effects) :
    OpensWay way disk effects := by
  unfold ensureDirectory at h
  -- either it was made, or there was one already
  split at h
  · next made hmake =>
    cases h
    obtain ⟨hentry, hnone, rfl⟩ := makeDirectory_ok hmake
    exact .make hentry hnone hway (.done _)
  · split at h
    · cases h
      exact .done disk
    · simp at h

/-- The parts are given from the last one on, so what ends sooner is a suffix. -/
theorem ensureBelow_opensWay {way : Location} {reversed : List (List Char)} {disk : Disk}
    (hway : ∀ above, above <:+ reversed → above ≠ [] →
      disk.locate (Path.ofParts above.reverse) <+: way) :
    OpensWay way disk (ensureBelow reversed disk).1 := by
  induction reversed with
  | nil => exact .done disk
  | cons part above ih =>
    have hbelow : OpensWay way disk (ensureBelow above disk).1 :=
      ih fun above' hsuffix => hway above' (hsuffix.trans (List.suffix_cons part above))
    have hself := hway (part :: above) List.suffix_rfl (by simp)
    simp only [ensureBelow]
    split
    · exact hbelow
    · split
      · next effects hensure => exact ensureDirectory_opensWay hself hensure
      · next cause hensure =>
        split
        -- those above come first, and then the directory is tried once more
        · rcases hfirst : ensureBelow above disk with ⟨effects, cause' | ⟨⟩⟩
          · rw [Task.andThen_error _ hfirst]
            rwa [hfirst] at hbelow
          · rw [Task.andThen_ok _ hfirst]
            rw [hfirst] at hbelow
            rw [← hbelow.grows.keepsDirectories.locate] at hself
            refine hbelow.append ?_
            rcases hagain : ensureDirectory (Path.ofParts (part :: above).reverse)
              (Effect.applyAll effects disk) with cause' | more
            · rw [Task.attempt_error hagain]
              exact .done _
            · rw [Task.attempt_ok hagain]
              exact ensureDirectory_opensWay hself hagain
        · exact .done disk

/-- The directory above a plain path lies on the way to it, and so do those above that one. -/
theorem ensureDirectories_opensWay {p : Path} (h : p.isPlain = true) (disk : Disk) :
    OpensWay (disk.locate p).dropLast disk (ensureDirectories (p.parent?.getD ⟨""⟩) disk).1 := by
  obtain ⟨parts, hparent, hpre⟩ := Path.exists_parts_parent h
  obtain ⟨above, name, hnames⟩ := Path.exists_names_of_isPlain h
  have hway : (disk.locate p).dropLast = disk.base p ++ p.names.dropLast := by
    rw [locate_of_isPlain h, hnames, List.dropLast_concat, ← List.append_assoc,
      List.dropLast_concat]
  -- any first parts of the path lead to its first names
  have hfirst : ∀ parts', parts' ≠ [] → parts' <+: p.parts.dropLast →
      disk.locate (Path.ofParts parts') <+: (disk.locate p).dropLast := by
    intro parts' hne hpre'
    obtain ⟨names, ⟨rest, hrest⟩, hcomponents⟩ := Path.components_ofParts_prefix h hne hpre'
    rw [locate, hcomponents, foldl_follow_front, hway, ← hrest]
    exact ⟨rest, by rw [List.append_assoc]⟩
  rw [hparent]
  unfold ensureDirectories
  split
  · exact .done disk
  next hempty =>
  refine ensureBelow_opensWay fun above hsuffix hne => ?_
  have hpartsne : parts ≠ [] := by
    rintro rfl
    exact hempty (by decide)
  by_cases hroot : parts = [[]]
  · -- the root has two parts where its path was made from one
    subst hroot
    have hpath : Path.ofParts above.reverse = Path.ofParts [[]] := by
      have hparts : (Path.ofParts [[]]).parts.reverse = [[], []] := by decide
      rw [hparts, List.suffix_cons_iff, List.suffix_cons_iff, List.suffix_nil] at hsuffix
      rcases hsuffix with rfl | rfl | rfl
      · decide
      · rfl
      · exact absurd rfl hne
    rw [hpath]
    exact hfirst [[]] (by simp) hpre
  · have hno : ∀ part ∈ parts, ∀ c ∈ part, Path.isSlash c = false := fun part hpart =>
      p.parts_no_slash part ((List.dropLast_prefix _).subset (hpre.subset hpart))
    rw [Path.parts_ofParts hpartsne hroot hno, ← List.reverse_prefix,
      List.reverse_reverse] at hsuffix
    exact hfirst above.reverse (by simpa using hne) (hsuffix.trans hpre)

theorem ensureDirectories_grows {disk disk' : Disk} {p : Path} {outcome : Except IoFailure Unit}
    (h : p.isPlain = true)
    (hrun : (ensureDirectories (p.parent?.getD ⟨""⟩)).run disk = (disk', outcome)) :
    Grows (disk.locate p).dropLast disk disk' := by
  rw [← (Prod.mk.inj hrun).1]
  exact (ensureDirectories_opensWay h disk).grows

/-! ## The replacement -/

/-- The effects of a replacement, up to the step that fails. -/
theorem replaceFile_effects (p : Path) (content : Bytes) (disk : Disk) :
    ∃ opening, (ensureDirectories (p.parent?.getD ⟨""⟩) disk).1 = opening
      ∧ ((∃ cause, replaceFile p content disk = (opening, .error cause))
        ∨ ∃ writing, write p.temporary content (Effect.applyAll opening disk) = .ok writing
          ∧ ((∃ cause, rename p.temporary p (Effect.applyAll writing (Effect.applyAll opening disk))
                = .error cause
              ∧ replaceFile p content disk = (opening ++ writing, .error cause))
            ∨ ∃ moving, rename p.temporary p
              (Effect.applyAll writing (Effect.applyAll opening disk)) = .ok moving
              ∧ replaceFile p content disk = (opening ++ (writing ++ moving), .ok ()))) := by
  have hbind : replaceFile p content = (ensureDirectories (p.parent?.getD ⟨""⟩)).andThen fun _ =>
      (Task.attempt (write p.temporary content)).andThen fun _ =>
        Task.attempt (rename p.temporary p) := rfl
  rw [hbind]
  -- first the directories, then the temporary file, then its new name
  rcases hopening : ensureDirectories (p.parent?.getD ⟨""⟩) disk with ⟨opening, cause | ⟨⟩⟩
  · exact ⟨opening, rfl, Or.inl ⟨cause, Task.andThen_error _ hopening⟩⟩
  refine ⟨opening, rfl, ?_⟩
  rw [Task.andThen_ok _ hopening]
  rcases hwriting : write p.temporary content (Effect.applyAll opening disk) with cause | writing
  · rw [Task.andThen_error _ (Task.attempt_error hwriting), List.append_nil]
    exact Or.inl ⟨cause, rfl⟩
  rw [Task.andThen_ok _ (Task.attempt_ok hwriting)]
  refine Or.inr ⟨writing, rfl, ?_⟩
  rcases hmoving : rename p.temporary p (Effect.applyAll writing (Effect.applyAll opening disk))
    with cause | moving
  · rw [Task.attempt_error hmoving, List.append_nil]
    exact Or.inl ⟨cause, rfl, rfl⟩
  · rw [Task.attempt_ok hmoving]
    exact Or.inr ⟨moving, rfl, rfl⟩

/-- What is left after the steps of a replacement, up to the one that fails. -/
theorem replaceFile_run {p : Path} {content : Bytes} {disk disk' : Disk}
    {outcome : Except IoFailure Unit} (h : (replaceFile p content).run disk = (disk', outcome)) :
    ∃ made result, (ensureDirectories (p.parent?.getD ⟨""⟩)).run disk = (made, result)
      ∧ (disk' = made ∧ (∃ cause, outcome = .error cause)
        ∨ ∃ effects, write p.temporary content made = .ok effects
          ∧ ((∃ cause, rename p.temporary p (Effect.applyAll effects made) = .error cause
              ∧ disk' = Effect.applyAll effects made ∧ outcome = .error cause)
            ∨ ∃ more, rename p.temporary p (Effect.applyAll effects made) = .ok more
              ∧ disk' = Effect.applyAll more (Effect.applyAll effects made)
              ∧ outcome = .ok ())) := by
  obtain ⟨opening, hopening, hcases⟩ := replaceFile_effects p content disk
  refine ⟨Effect.applyAll opening disk, _, by rw [Task.run, hopening], ?_⟩
  rw [Task.run, Prod.mk.injEq] at h
  obtain ⟨rfl, rfl⟩ := h
  rcases hcases with ⟨cause, heq⟩
    | ⟨writing, hwrite, ⟨cause, hrename, heq⟩ | ⟨moving, hrename, heq⟩⟩
  · rw [heq]
    exact Or.inl ⟨rfl, cause, rfl⟩
  · rw [heq, Effect.applyAll_append]
    exact Or.inr ⟨writing, hwrite, Or.inl ⟨cause, hrename, rfl, rfl⟩⟩
  · rw [heq, Effect.applyAll_append, Effect.applyAll_append]
    exact Or.inr ⟨writing, hwrite, Or.inr ⟨moving, hrename, rfl, rfl⟩⟩

/-- Renaming a file over anything but a directory takes no directory away. -/
theorem keepsDirectories_rename {disk : Disk} {old new : Location} {content : Bytes}
    (hold : disk.surface? old = some (.file content)) (hentry : disk.IsEntry new)
    (hnew : disk.surface? new ≠ some .directory) :
    KeepsDirectories disk (Effect.apply disk (.rename old new)) := by
  refine ⟨Effect.here_apply _ _, fun {place} hplace => ?_⟩
  have hne : place ≠ new := by
    intro heq
    rw [heq] at hplace
    exact hnew hplace
  have hne' : place ≠ old := by
    intro heq
    rw [heq, hold] at hplace
    simp at hplace
  rw [Effect.surface?_rename hold hentry hnew, Function.update_of_ne hne,
    Function.update_of_ne hne', hplace]

/-- A replacement that goes well leaves the content at the path: the disk is `made`, but for the
temporary path, where nothing is left, and the path itself, which can be read. No directory gives
way to them. -/
theorem replaceFile_ok {p : Path} {content : Bytes} {disk disk' : Disk}
    (h : (replaceFile p content).run disk = (disk', .ok ())) :
    ∃ made result, (ensureDirectories (p.parent?.getD ⟨""⟩)).run disk = (made, result)
      ∧ KeepsDirectories made disk'
      ∧ disk'.surface? = Function.update
          (Function.update made.surface? (made.locate p.temporary) none)
          (made.locate p) (some (.file content))
      ∧ disk'.read p = .ok content := by
  obtain ⟨made, result, hmade, hcases⟩ := replaceFile_run h
  refine ⟨made, result, hmade, ?_⟩
  rcases hcases with ⟨-, cause, hno⟩
    | ⟨effects, hwrite, ⟨cause, -, -, hno⟩ | ⟨more, hrename, hdisk', -⟩⟩
  · simp at hno
  · simp at hno
  obtain ⟨-, htemp, -⟩ := write_ok hwrite
  have hwritten := surface?_write hwrite
  have hhere : (Effect.applyAll effects made).here = made.here := Effect.here_applyAll _ _
  generalize Effect.applyAll effects made = written at hwritten hhere hrename hdisk'
  subst hdisk'
  have hkeeps : KeepsDirectories made written := KeepsDirectories.of_update hhere htemp hwritten
  -- the temporary path leads where it led before the writing, so the file is found there
  obtain ⟨-, hres, hopen, hdir, rfl⟩ := rename_ok hrename
  obtain ⟨-, hentry⟩ := resolve_entry hres
  have hcontent : written.surface? (written.locate p.temporary) = some (.file content) := by
    rw [hwritten, hkeeps.locate, Function.update_self]
  rw [Effect.applyAll_singleton]
  have hrenamed := Effect.surface?_rename hcontent hentry hdir
  have hkeeps' := keepsDirectories_rename hcontent hentry hdir
  refine ⟨hkeeps.trans hkeeps', ?_, read_eq_ok_iff.mpr ⟨?_, ?_, hopen⟩⟩
  · rw [hrenamed, hwritten, hkeeps.locate, hkeeps.locate, Function.update_idem]
  · rw [hkeeps'.locate]
    exact hkeeps'.resolve hres
  · rw [hkeeps'.locate, hrenamed, Function.update_self]

/-- The temporary path of a plain one has the same names but for the last one. Instead of that it
has another name or, if it has the same, is the path itself; or it has no name there and leads to
the directory above. -/
theorem exists_temporary_last {p : Path} (h : p.isPlain = true) :
    ∃ above last c, p.names = above ++ [last]
      ∧ p.temporary.components = p.front ++ above.map .name ++ [c]
      ∧ (c = .up ∨ ∃ name, c = .name name ∧ (name = last → p.temporary = p)) := by
  obtain ⟨above, last, hnames⟩ := Path.exists_names_of_isPlain h
  obtain ⟨c, hcomponents, hc⟩ := Path.components_temporary h
  have hfront : p.components = p.front ++ above.map .name ++ [.name last] := by
    rw [Path.components_of_isPlain h, hnames, List.map_append, List.append_assoc]
    rfl
  rw [hfront, List.dropLast_concat] at hcomponents
  refine ⟨above, last, c, hnames, hcomponents, hc.imp_right ?_⟩
  rintro ⟨name, rfl, hsame⟩
  refine ⟨name, rfl, fun hlast => hsame ?_⟩
  rw [hfront, List.getLast?_concat, hlast]

/-- The temporary path of a plain one that leads to the same location is the same path. -/
theorem eq_of_locate_temporary {disk : Disk} {p : Path} (h : p.isPlain = true)
    (heq : disk.locate p.temporary = disk.locate p) : p.temporary = p := by
  obtain ⟨above, last, c, hnames, hcomponents, hc⟩ := exists_temporary_last h
  have htemporary : disk.locate p.temporary = Location.follow (disk.base p ++ above) c := by
    rw [locate, hcomponents, List.foldl_append, foldl_follow_front]
    rfl
  rw [htemporary, locate_of_isPlain h, hnames] at heq
  rcases hc with rfl | ⟨name, rfl, hsame⟩
  · -- a location above another one has fewer names
    have hlength := congrArg List.length heq
    simp only [Location.follow, List.length_dropLast, List.length_append,
      List.length_singleton] at hlength
    omega
  · apply hsame
    simpa [Location.follow] using heq

/-- The temporary path of a plain one leads to a name beside it, or to no name at all. If it leads
to the same name, it is the path itself. -/
theorem resolve_temporary {disk disk' : Disk} {p : Path} {place : Location} (h : p.isPlain = true)
    (hhere : disk'.here = disk.here) (hres : disk'.resolve p.temporary = .ok (.entry place)) :
    ∃ name, place = disk.base p ++ (p.names.dropLast ++ [name])
      ∧ (place = disk.locate p → p.temporary = p) := by
  obtain ⟨above, last, c, hnames, hcomponents, hc⟩ := exists_temporary_last h
  rcases hc with rfl | ⟨name, rfl, -⟩
  · -- a directory's own name for the one above it is no name in it
    obtain ⟨-, -, htarget⟩ := Steps.bind_eq_ok_iff.mp hres
    rw [hcomponents, target, List.getLast?_concat] at htarget
    simp only at htarget
    rcases hwalk : disk'.walk (p.front ++ above.map .name ++ [.up]) with cause | place'
    · rw [hwalk] at htarget
      cases htarget
    · rw [hwalk] at htarget
      cases htarget
  · obtain ⟨hplace, -⟩ := resolve_entry hres
    have hspell : place = disk.base p ++ (above ++ [name]) := by
      rw [hplace, locate, hcomponents, hhere, ← foldl_follow_front, List.map_append,
        List.append_assoc]
      rfl
    refine ⟨name, by rw [hspell, hnames, List.dropLast_concat], fun heq => ?_⟩
    rw [hplace, locate, hhere, ← locate] at heq
    exact eq_of_locate_temporary h heq

/-- A replacement that fails leaves the disk `made` as it is, or with the content at the temporary
path, which is another one then. -/
theorem replaceFile_error {p : Path} {content : Bytes} {disk disk' : Disk} {cause : IoFailure}
    (h : p.isPlain = true) (hrun : (replaceFile p content).run disk = (disk', .error cause)) :
    ∃ made result, (ensureDirectories (p.parent?.getD ⟨""⟩)).run disk = (made, result)
      ∧ Grows (disk.locate p).dropLast disk made ∧ KeepsDirectories made disk'
      ∧ (disk' = made
        ∨ ∃ name, disk.locate p.temporary = disk.base p ++ (p.names.dropLast ++ [name])
          ∧ disk.base p ++ (p.names.dropLast ++ [name]) ≠ disk.locate p
          ∧ disk'.surface? = Function.update made.surface?
              (disk.base p ++ (p.names.dropLast ++ [name])) (some (.file content))) := by
  obtain ⟨made, result, hmade, hcases⟩ := replaceFile_run hrun
  have hgrows := ensureDirectories_grows h hmade
  refine ⟨made, result, hmade, hgrows, ?_⟩
  rcases hcases with ⟨hsame, -⟩ | ⟨effects, hwrite, ⟨cause', hrename, hdisk', -⟩ | ⟨_, -, -, hno⟩⟩
  -- it failed before anything was written
  · rw [hsame]
    exact ⟨KeepsDirectories.refl made, Or.inl rfl⟩
  -- it failed when the temporary file was there
  · obtain ⟨hres, htemp, -⟩ := write_ok hwrite
    obtain ⟨name, hspell, hself⟩ := resolve_temporary h hgrows.here hres
    have hwritten := surface?_write hwrite
    rw [hspell] at htemp hwritten
    have hkeeps : KeepsDirectories made (Effect.applyAll effects made) :=
      KeepsDirectories.of_update (Effect.here_applyAll _ _) htemp hwritten
    rw [hdisk']
    refine ⟨hkeeps, Or.inr ⟨name, ?_, fun heq => ?_, hwritten⟩⟩
    · rw [← hgrows.keepsDirectories.locate, hspell]
    -- the path itself, which has just been written: moving it does not fail
    have hpath := hself (hspell.trans heq)
    rw [hpath] at hres hrename hspell
    have hres' : (Effect.applyAll effects made).resolve p
        = .ok (.entry ((Effect.applyAll effects made).locate p)) := by
      rw [hkeeps.locate]
      exact hkeeps.resolve hres
    have hopen : p.endsOpen = false := by
      simp only [Path.isPlain, Bool.and_eq_true, Bool.not_eq_true'] at h
      exact h.2
    rw [rename_eq_ok hres' hres' hopen] at hrename
    · simp at hrename
    · rw [hkeeps.locate, hspell, hwritten, Function.update_self]
      simp
  · simp at hno

/-- A replacement that fails takes no directory away and does not touch what is at the path. Where
no file stood on the way to the path, none does. -/
theorem replaceFile_error_frame {p : Path} {content : Bytes} {disk disk' : Disk} {cause : IoFailure}
    (h : p.isPlain = true) (hrun : (replaceFile p content).run disk = (disk', .error cause)) :
    KeepsDirectories disk disk' ∧ disk'.surface? (disk.locate p) = disk.surface? (disk.locate p)
      ∧ (disk.FileFree (disk.base p) p.names → disk'.FileFree (disk.base p) p.names) := by
  obtain ⟨above, last, hnames⟩ := Path.exists_names_of_isPlain h
  have hlocate : disk.locate p = disk.base p ++ p.names := locate_of_isPlain h
  obtain ⟨made, result, -, hgrows, hkeeps, hcases⟩ := replaceFile_error h hrun
  -- the path is longer than the way to it, so no new directory is there
  have hpath : made.surface? (disk.locate p) = disk.surface? (disk.locate p) := by
    refine hgrows.surface?_eq fun hpre => ?_
    have hlen := hpre.length_le
    rw [hlocate, hnames, ← List.append_assoc, List.dropLast_concat, List.length_append] at hlen
    exact absurd hlen (Nat.not_succ_le_self _)
  refine ⟨hgrows.keepsDirectories.trans hkeeps, ?_, fun hfree before hbefore hnil content' => ?_⟩
  · rcases hcases with rfl | ⟨name, -, hne, hdisk'⟩
    · exact hpath
    · rw [hdisk', Function.update_of_ne hne.symm, hpath]
  · rcases hcases with rfl | ⟨name, -, hne, hdisk'⟩
    · exact hgrows.fileFree hfree before hbefore hnil content'
    · -- the temporary path has as many names as the path, so it is on the way only if it is
      -- the path
      have hother : disk.base p ++ before ≠ disk.base p ++ (p.names.dropLast ++ [name]) := by
        intro heq
        have hlist : before = p.names.dropLast ++ [name] := List.append_cancel_left heq
        have hall : before = p.names := by
          refine hbefore.eq_of_length ?_
          rw [hlist, hnames]
          simp
        rw [← hlist, hall, hlocate] at hne
        exact hne rfl
      rw [hdisk', Function.update_of_ne hother]
      exact hgrows.fileFree hfree before hbefore hnil content'

/-! ## Reading after a replacement that failed -/

/-- A file that could be read still can, with the content that it had. -/
theorem read_ok_after_error {p : Path} {content old : Bytes} {disk disk' : Disk} {cause : IoFailure}
    (h : p.isPlain = true) (hrun : (replaceFile p content).run disk = (disk', .error cause))
    (hread : disk.read p = .ok old) : disk'.read p = .ok old := by
  obtain ⟨hkeeps, hpath, -⟩ := replaceFile_error_frame h hrun
  obtain ⟨hres, hfile, hopen⟩ := read_eq_ok_iff.mp hread
  refine read_eq_ok_iff.mpr ⟨?_, ?_, hopen⟩
  · rw [hkeeps.locate]
    exact hkeeps.resolve hres
  · rw [hkeeps.locate, hpath, hfile]

/-- A file that was missing still cannot be read. It is still reported as missing if every name on
its path is one that the system accepts; otherwise it may be that name that is reported now. -/
theorem read_notFound_after_error {p : Path} {content : Bytes} {disk disk' : Disk}
    {cause reported : IoFailure} (h : p.isPlain = true)
    (hrun : (replaceFile p content).run disk = (disk', .error cause))
    (hread : disk.read p = .error reported) (hkind : reported.kind = .notFound) :
    (∀ old, disk'.read p ≠ .ok old)
      ∧ ((∀ name ∈ p.names, NameFits name) → disk'.read p = .error IoFailure.missing) := by
  obtain ⟨hkeeps, hpath, hfree⟩ := replaceFile_error_frame h hrun
  obtain ⟨hcheck, hnone, hclear⟩ := read_notFound h hread hkind
  have hnone' : disk'.surface? (disk'.locate p) = none := by
    rw [hkeeps.locate, hpath, hnone]
  constructor
  · intro old hok
    obtain ⟨-, hfile, -⟩ := read_eq_ok_iff.mp hok
    rw [hnone'] at hfile
    simp at hfile
  · intro hfits
    refine read_missing h hcheck hfits hnone' ?_
    have hbase : disk'.base p = disk.base p := by
      rw [base, base, hkeeps.here]
    rw [hbase]
    exact hfree hclear

end Disk

end BootTrust
