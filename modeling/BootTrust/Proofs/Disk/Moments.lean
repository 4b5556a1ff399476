import BootTrust.Proofs.Disk.Reader
/-
Replacing a file, moment by moment. Whoever reads while a file is being replaced meets the
disk as it is after some of the single steps, with a file that is written byte by byte. At
each of these moments the path has what it had before, or it has the new content as a
whole (`replaceFile_moment`).

There are three stretches. While the directories are made, a reader finds what was there, as was
shown for a disk that grows. While the temporary file is written, the disk shows something else at
the location of the temporary path and nowhere else, and this is not on the way to the path: it has
as many names as the path and is another one. The last step moves the file that is complete by then.

All this needs the temporary path to be another path. A path whose last name has the ending `tmp` is
its own temporary path, and there the file itself is cleared and written.
-/

set_option autoImplicit false

namespace BootTrust

namespace Effect

variable {disk now : Disk} {effects first second : List Effect}

/-! ## Moments -/

/-- Whether a disk is met while effects take place on another one: it is left by the first so many
of their single steps, by none of them or by all. -/
def IsMoment (effects : List Effect) (disk now : Disk) : Prop :=
  ∃ taken, taken <+: effects.flatMap steps ∧ now = applyAll taken disk

theorem isMoment_nil : IsMoment [] disk now ↔ now = disk := by
  constructor
  · rintro ⟨taken, hpre, rfl⟩
    rw [List.flatMap_nil, List.prefix_nil] at hpre
    rw [hpre]
    rfl
  · rintro rfl
    exact ⟨[], List.nil_prefix, rfl⟩

/-- A moment of effects in a row is one of the first ones, or one of the others on the disk that the
steps of the first ones leave. -/
theorem isMoment_append : IsMoment (first ++ second) disk now ↔
    IsMoment first disk now ∨ IsMoment second (applyAll (first.flatMap steps) disk) now := by
  constructor
  · rintro ⟨taken, hpre, rfl⟩
    rw [List.flatMap_append] at hpre
    rcases List.prefix_or_prefix_of_prefix hpre (List.prefix_append _ _) with hshort | ⟨more, rfl⟩
    · exact Or.inl ⟨taken, hshort, rfl⟩
    · rw [List.prefix_append_right_inj] at hpre
      exact Or.inr ⟨more, hpre, applyAll_append ..⟩
  · rintro (⟨taken, hpre, rfl⟩ | ⟨taken, hpre, rfl⟩)
    · refine ⟨taken, ?_, rfl⟩
      rw [List.flatMap_append]
      exact hpre.trans (List.prefix_append _ _)
    · refine ⟨first.flatMap steps ++ taken, ?_, (applyAll_append ..).symm⟩
      rw [List.flatMap_append, List.prefix_append_right_inj]
      exact hpre

theorem isMoment_singleton {effect : Effect} (h : effect.steps = [effect]) :
    IsMoment [effect] disk now ↔ now = disk ∨ now = apply disk effect := by
  have hsteps : [effect].flatMap steps = [effect] := by
    rw [List.flatMap_singleton, h]
  unfold IsMoment
  rw [hsteps]
  constructor
  · rintro ⟨taken, hpre, rfl⟩
    rcases List.prefix_cons_iff.mp hpre with rfl | ⟨more, rfl, hmore⟩
    · exact Or.inl rfl
    · rw [List.prefix_nil.mp hmore]
      exact Or.inr rfl
  · rintro (rfl | rfl)
    · exact ⟨[], List.nil_prefix, rfl⟩
    · exact ⟨[effect], List.prefix_rfl, rfl⟩

/-- No step changes where relative paths start from. -/
theorem IsMoment.here (h : IsMoment effects disk now) : now.here = disk.here := by
  obtain ⟨taken, -, rfl⟩ := h
  exact here_applyAll _ _

/-! ## Bytes one by one -/

theorem surface?_appendEach {place : Location} {content : Bytes} (bytes : Bytes)
    (hfile : disk.surface? place = some (.file content)) :
    (applyAll (bytes.map fun b => .append place [b]) disk).surface?
      = Function.update disk.surface? place (some (.file (content ++ bytes))) := by
  induction bytes generalizing disk content with
  | nil =>
    rw [List.append_nil, ← hfile, Function.update_eq_self]
    rfl
  | cons b bytes ih =>
    have hfirst := surface?_append [b] hfile
    have hnext : (apply disk (.append place [b])).surface? place
        = some (.file (content ++ [b])) := by
      rw [hfirst, Function.update_self]
    have hrest := ih hnext
    rw [hfirst, Function.update_idem, List.append_assoc] at hrest
    exact hrest

end Effect

namespace Disk

variable {disk made now : Disk} {p : Path} {content : Bytes} {writing moving : List Effect}

/-- The steps of writing a file. -/
theorem flatMap_steps_of_write (h : write p content disk = .ok writing) :
    writing.flatMap Effect.steps
      = .clear (disk.locate p) :: content.map fun b => .append (disk.locate p) [b] := by
  obtain ⟨-, -, rfl⟩ := write_ok h
  rw [List.flatMap_cons, List.flatMap_singleton]
  rfl

/-- While a file is written, a part of the content is seen at its location, and elsewhere nothing
changes. In the end it is the whole content, as if it had been written at once. -/
theorem surface?_writing (h : write p content disk = .ok writing) :
    (Effect.applyAll (writing.flatMap Effect.steps) disk).surface?
        = (Effect.applyAll writing disk).surface?
      ∧ ∀ now, Effect.IsMoment writing disk now → now = disk
        ∨ ∃ part, now.surface? = Function.update disk.surface? (disk.locate p)
          (some (.file part)) := by
  have hwhole := surface?_write h
  have hsteps := flatMap_steps_of_write h
  obtain ⟨hres, hdir, rfl⟩ := write_ok h
  obtain ⟨-, hentry⟩ := resolve_entry hres
  rw [hwhole]
  generalize disk.locate p = place at hdir hentry hsteps ⊢
  have hclear := Effect.surface?_clear hentry hdir
  have hempty : (Effect.apply disk (.clear place)).surface? place = some (.file []) := by
    rw [hclear, Function.update_self]
  -- the bytes that have been written so far
  have hpart : ∀ part,
      (Effect.applyAll (.clear place :: part.map fun b => .append place [b]) disk).surface?
        = Function.update disk.surface? place (some (.file part)) := by
    intro part
    have heach := Effect.surface?_appendEach part hempty
    rw [hclear, Function.update_idem] at heach
    exact heach
  refine ⟨by rw [hsteps, hpart], ?_⟩
  rintro now ⟨taken, hpre, rfl⟩
  rw [hsteps] at hpre
  rcases List.prefix_cons_iff.mp hpre with rfl | ⟨more, rfl, hmore⟩
  · exact Or.inl rfl
  · rw [List.prefix_iff_eq_take, ← List.map_take] at hmore
    rw [hmore]
    exact Or.inr ⟨_, hpart _⟩

/-! ## The moments of a replacement -/

/-- A path is not read differently while something else is shown where its temporary path leads, if
that is another path. -/
theorem read_beside (h : p.isPlain = true) (hother : p.temporary ≠ p)
    (hhere : made.here = disk.here)
    (hres : made.resolve p.temporary = .ok (.entry (made.locate p.temporary)))
    (hhere' : now.here = made.here) {seen : Option Surface}
    (hnow : now.surface? = Function.update made.surface? (made.locate p.temporary) seen) :
    now.read p = made.read p := by
  obtain ⟨name, hplace, hself⟩ := resolve_temporary h hhere hres
  obtain ⟨above, last, hnames⟩ := Path.exists_names_of_isPlain h
  have hbase : made.base p = disk.base p := by
    rw [base, base, hhere]
  refine read_congr h hhere' fun before hbefore => ?_
  rw [hnow, Function.update_of_ne]
  -- the temporary path has as many names as the path, so it is on the way only if it is the path
  rw [hbase, hplace]
  intro heq
  have hlist : before = p.names.dropLast ++ [name] := List.append_cancel_left heq
  have hall : before = p.names := by
    refine hbefore.eq_of_length ?_
    rw [hlist, hnames]
    simp
  refine hother (hself ?_)
  rw [hplace, ← hlist, hall, locate_of_isPlain h]

/-- The temporary file, once it is complete, is found at the path when it has been moved there. -/
theorem read_moved {written : Disk} (hmove : rename p.temporary p written = .ok moving)
    (hhere : now.here = written.here) (hnow : now.surface? = written.surface?)
    (htemp : written.surface? (written.locate p.temporary) = some (.file content)) :
    ∃ effect, moving = [effect] ∧ effect.steps = [effect]
      ∧ (Effect.apply now effect).read p = .ok content := by
  obtain ⟨-, hres, hopen, hdir, rfl⟩ := rename_ok hmove
  obtain ⟨-, above, name, hsplit, habove⟩ := resolve_entry hres
  rw [← hnow] at habove hdir htemp
  have hentry : now.IsEntry (written.locate p) := ⟨above, name, hsplit, habove⟩
  have hsame : KeepsDirectories written now := ⟨hhere, fun hplace => by rw [hnow, hplace]⟩
  have hkeeps := hsame.trans (keepsDirectories_rename htemp hentry hdir)
  refine ⟨_, rfl, rfl, read_eq_ok_iff.mpr ⟨?_, ?_, hopen⟩⟩
  · rw [hkeeps.locate]
    exact hkeeps.resolve hres
  · rw [hkeeps.locate, Effect.surface?_rename htemp hentry hdir, Function.update_self]

/-- After the bytes have been written one by one, the last step is still to come, or the content is
there. -/
theorem moment_of_moving (hwrite : write p.temporary content made = .ok writing)
    (hmove : rename p.temporary p (Effect.applyAll writing made) = .ok moving)
    (hmoment : Effect.IsMoment moving (Effect.applyAll (writing.flatMap Effect.steps) made) now) :
    now = Effect.applyAll (writing.flatMap Effect.steps) made ∨ now.read p = .ok content := by
  have hsame := (surface?_writing hwrite).1
  have hhere : (Effect.applyAll (writing.flatMap Effect.steps) made).here
      = (Effect.applyAll writing made).here := by
    rw [Effect.here_applyAll, Effect.here_applyAll]
  have hlocate : (Effect.applyAll writing made).locate p.temporary = made.locate p.temporary := by
    rw [locate, locate, Effect.here_applyAll]
  have htemp : (Effect.applyAll writing made).surface?
      ((Effect.applyAll writing made).locate p.temporary) = some (.file content) := by
    rw [hlocate, surface?_write hwrite, Function.update_self]
  obtain ⟨effect, rfl, hsingle, hread⟩ := read_moved hmove hhere hsame htemp
  rcases (Effect.isMoment_singleton hsingle).mp hmoment with rfl | rfl
  · exact Or.inl rfl
  · exact Or.inr hread

theorem FindsOld.of_read_eq (h : FindsOld p disk made) (hread : now.read p = made.read p) :
    FindsOld p disk now := by
  unfold FindsOld at h ⊢
  rw [hread]
  exact h

/-- At every moment of a replacement the path has what it had before or the whole new content. -/
theorem replaceFile_moment (h : p.isPlain = true) (hother : p.temporary ≠ p)
    (hmoment : Effect.IsMoment (replaceFile p content disk).1 disk now) :
    FindsOld p disk now ∨ now.read p = .ok content := by
  obtain ⟨opening, hopening, hcases⟩ := replaceFile_effects p content disk
  have hway := ensureDirectories_opensWay h disk
  rw [hopening] at hway
  -- while the directories are made
  have hmade : ∀ now, Effect.IsMoment opening disk now → FindsOld p disk now := by
    rintro now ⟨taken, hpre, rfl⟩
    rw [hway.flatMap_steps] at hpre
    exact findsOld_of_grows h (hway.of_prefix hpre).grows
  have hold := findsOld_of_grows h hway.grows
  have hhere : (Effect.applyAll opening disk).here = disk.here := Effect.here_applyAll _ _
  -- while the temporary file is written
  have hwritten : ∀ writing now,
      write p.temporary content (Effect.applyAll opening disk) = .ok writing →
      Effect.IsMoment writing (Effect.applyAll opening disk) now → FindsOld p disk now := by
    intro writing now hwrite hnow
    obtain ⟨hres, -, -⟩ := write_ok hwrite
    rcases (surface?_writing hwrite).2 now hnow with rfl | ⟨part, hpart⟩
    · exact hold
    · exact hold.of_read_eq (read_beside h hother hhere hres hnow.here hpart)
  rcases hcases with ⟨cause, heq⟩ | ⟨writing, hwrite, ⟨cause, -, heq⟩ | ⟨moving, hmove, heq⟩⟩
  · rw [heq] at hmoment
    exact Or.inl (hmade now hmoment)
  · rw [heq, Effect.isMoment_append, hway.flatMap_steps] at hmoment
    rcases hmoment with hnow | hnow
    · exact Or.inl (hmade now hnow)
    · exact Or.inl (hwritten writing now hwrite hnow)
  · rw [heq, Effect.isMoment_append, hway.flatMap_steps, Effect.isMoment_append] at hmoment
    rcases hmoment with hnow | hnow | hnow
    · exact Or.inl (hmade now hnow)
    · exact Or.inl (hwritten writing now hwrite hnow)
    · rcases moment_of_moving hwrite hmove hnow with rfl | hread
      · exact Or.inl (hwritten writing _ hwrite ⟨_, List.prefix_rfl, rfl⟩)
      · exact Or.inr hread

/-! ## A moment that is met -/

/-- The disk on which the temporary file has been cleared is met, if it can be written and no
directory has to be made. -/
theorem isMoment_cleared (hopening : ensureDirectories (p.parent?.getD ⟨""⟩) disk = ([], .ok ()))
    (hwrite : write p.temporary content disk = .ok writing) :
    Effect.IsMoment (replaceFile p content disk).1 disk
      (Effect.apply disk (.clear (disk.locate p.temporary))) := by
  have hbegin : ∃ more, (replaceFile p content disk).1 = writing ++ more := by
    have hbind : replaceFile p content = (ensureDirectories (p.parent?.getD ⟨""⟩)).andThen fun _ =>
        (Task.attempt (write p.temporary content)).andThen fun _ =>
          Task.attempt (rename p.temporary p) := rfl
    have hsame : Effect.applyAll [] disk = disk := rfl
    rw [hbind, Task.andThen_ok _ hopening, hsame, Task.andThen_ok _ (Task.attempt_ok hwrite)]
    exact ⟨_, rfl⟩
  obtain ⟨more, hmore⟩ := hbegin
  rw [hmore, Effect.isMoment_append]
  refine Or.inl ⟨[.clear (disk.locate p.temporary)], ?_, (Effect.applyAll_singleton _ _).symm⟩
  rw [flatMap_steps_of_write hwrite]
  exact ⟨_, rfl⟩

end Disk

end BootTrust
