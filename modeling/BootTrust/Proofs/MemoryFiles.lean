import BootTrust.MemoryFiles
import BootTrust.Proofs.Hashing
import BootTrust.Proofs.Path.Respelling
import BootTrust.Proofs.Text.Utf8
/-
Files in memory as a map. A change of a file decides what is found under every spelling of its path
and under no other path (`get?_change`). After a run of changes the last one of a file has decided
(`get?_changeAll_eq_some_iff`, where the run starts from any files).

A file is read as bytes or as a text. The two ways agree because decoding takes encodings and
nothing else: a text is read if and only if the file has its bytes, and a file that is there and
cannot be read as a text has the bytes of none.
-/

set_option autoImplicit false

namespace BootTrust

/-- That the file at a path can be opened and that it has `content` when it is read to its end. -/
def FileSource.Yields (files : FileSource) (p : Path) (content : Bytes) : Prop :=
  ∃ stream, files.openFile p = .ok stream ∧ stream.readToEnd = .ok content

/-- The content that a change leaves at its path. -/
def FileChange.content? : FileChange → Option Bytes
  | .insert _ content => some content
  | .remove _ => none

namespace MemoryFiles

variable {files : MemoryFiles} {p : Path} {content : Bytes}

/-! ## Opening and reading -/

theorem openFile_eq_ok_iff {stream : Stream} :
    files.source.openFile p = .ok stream
      ↔ ∃ content, files.get? p = some content ∧ stream = .ofBytes content := by
  simp only [source]
  rcases files.get? p with _ | content
  · simp
  · simp [eq_comm]

theorem openFile_eq_error_iff {e : IoFailure} :
    files.source.openFile p = .error e ↔ files.get? p = none ∧ e = missing p := by
  simp only [source]
  rcases files.get? p with _ | content
  · simp [eq_comm]
  · simp

/-- A file yields what is found at its path. -/
theorem yields_iff : files.source.Yields p content ↔ files.get? p = some content := by
  have hread : ∀ bytes : Bytes, (Stream.ofBytes bytes).readToEnd = .ok bytes := fun bytes => by
    rw [Stream.readToEnd_eq, Stream.failure?_ofBytes, Stream.content_ofBytes]
  constructor
  · rintro ⟨stream, hopen, hcontent⟩
    obtain ⟨found, hfound, rfl⟩ := openFile_eq_ok_iff.mp hopen
    rw [hread] at hcontent
    cases hcontent
    exact hfound
  · intro h
    exact ⟨.ofBytes content, openFile_eq_ok_iff.mpr ⟨content, h, rfl⟩, hread content⟩

theorem readText_source (files : MemoryFiles) (p : Path) :
    files.source.readText p
      = match files.get? p with
        | none => .error (missing p)
        | some bytes =>
          match Utf8.decode? bytes with
          | none => .error IoFailure.notText
          | some text => .ok text := by
  rw [FileSource.readText, readBytes_source]
  rcases files.get? p with _ | bytes
  · rfl
  · simp only [bind, Except.bind]
    rcases Utf8.decode? bytes with _ | text
    · rfl
    · rfl

theorem readText_eq_ok_iff {s : String} :
    files.source.readText p = .ok s ↔ files.get? p = some (Utf8.encode s) := by
  rw [readText_source]
  rcases files.get? p with _ | bytes
  · simp
  · simp only [Option.some_inj, @eq_comm _ bytes, ← Utf8.decode?_eq_some_iff]
    rcases Utf8.decode? bytes with _ | text
    · simp
    · simp

/-- Reading a text fails if there is no file, and if there is one that is no text. -/
theorem readText_eq_error_iff {e : IoFailure} :
    files.source.readText p = .error e ↔ (files.get? p = none ∧ e = missing p)
      ∨ ∃ bytes, files.get? p = some bytes ∧ ¬ Utf8.IsText bytes ∧ e = IoFailure.notText := by
  rw [readText_source]
  rcases files.get? p with _ | bytes
  · simp [eq_comm]
  · simp only [Option.some_inj, exists_eq_left', ← Utf8.decode?_eq_none_iff]
    rcases Utf8.decode? bytes with _ | text
    · simp [eq_comm]
    · simp

/-- That the two ways to read a file agree. -/
structure ReadsAlike (files : FileSource) (p : Path) : Prop where
  /-- A text is read exactly if the file yields its bytes. -/
  text : ∀ s, files.readText p = .ok s ↔ files.Yields p (Utf8.encode s)
  /-- There is no file to read exactly if there is none to open. -/
  notFound : (∃ e, files.readText p = .error e ∧ e.kind = .notFound)
    ↔ ∃ e, files.openFile p = .error e ∧ e.kind = .notFound
  /-- Reading fails for another reason exactly if what the file yields is no text. -/
  notText : (∃ e, files.readText p = .error e ∧ e.kind ≠ .notFound)
    ↔ ∃ content, files.Yields p content ∧ ¬ Utf8.IsText content

theorem readsAlike (files : MemoryFiles) (p : Path) : ReadsAlike files.source p := by
  refine ⟨fun s => readText_eq_ok_iff.trans yields_iff.symm, ⟨?_, ?_⟩, ⟨?_, ?_⟩⟩
  · rintro ⟨e, he, hkind⟩
    rcases readText_eq_error_iff.mp he with hnone | ⟨bytes, -, -, rfl⟩
    · exact ⟨e, openFile_eq_error_iff.mpr hnone, hkind⟩
    · cases hkind
  · rintro ⟨e, he, hkind⟩
    exact ⟨e, readText_eq_error_iff.mpr (Or.inl (openFile_eq_error_iff.mp he)), hkind⟩
  · rintro ⟨e, he, hkind⟩
    rcases readText_eq_error_iff.mp he with ⟨-, rfl⟩ | ⟨bytes, hbytes, hnone, -⟩
    · exact absurd rfl hkind
    · exact ⟨bytes, yields_iff.mpr hbytes, hnone⟩
  · rintro ⟨content, hcontent, hnone⟩
    exact ⟨_, readText_eq_error_iff.mpr (Or.inr ⟨content, yields_iff.mp hcontent, hnone, rfl⟩),
      by decide⟩

/-! ## Changes -/

/-- After a change its content is found at its path, however this is written, and what was found
anywhere else is still there. -/
theorem get?_change (files : MemoryFiles) (change : FileChange) (p : Path) :
    (files.change change).get? p
      = if p.components = change.path.components then change.content? else files.get? p := by
  cases change with
  | insert q content => exact get?_insert files q p content
  | remove q => exact get?_erase files q p

/-- That the last of some changes to the file at `p` put `content` there. -/
def LeftBy (changes : List FileChange) (p : Path) (content : Bytes) : Prop :=
  ∃ past q future, changes = past ++ .insert q content :: future ∧ q.components = p.components
    ∧ ∀ later ∈ future, later.path.components ≠ p.components

theorem leftBy_cons_iff {change : FileChange} {changes : List FileChange} :
    LeftBy (change :: changes) p content ↔ LeftBy changes p content
      ∨ (change.content? = some content ∧ change.path.components = p.components
        ∧ ∀ later ∈ changes, later.path.components ≠ p.components) := by
  constructor
  · rintro ⟨_ | ⟨first, past⟩, q, future, heq, hpath, hlater⟩
    · cases heq
      exact Or.inr ⟨rfl, hpath, hlater⟩
    · cases heq
      exact Or.inl ⟨past, q, future, rfl, hpath, hlater⟩
  · rintro (⟨past, q, future, rfl, hpath, hlater⟩ | ⟨hcontent, hpath, hlater⟩)
    · exact ⟨change :: past, q, future, rfl, hpath, hlater⟩
    · cases change with
      | insert q found =>
        cases hcontent
        exact ⟨[], q, changes, rfl, hpath, hlater⟩
      | remove q => cases hcontent

/-- After a run of changes there is at a path what the last of them left there, and what was there
before if none of them concerned it. -/
theorem get?_changeAll_eq_some_iff (files : MemoryFiles) (changes : List FileChange) :
    (files.changeAll changes).get? p = some content ↔ LeftBy changes p content
      ∨ (files.get? p = some content
        ∧ ∀ change ∈ changes, change.path.components ≠ p.components) := by
  induction changes generalizing files with
  | nil => simp [changeAll, LeftBy]
  | cons change changes ih =>
    rw [changeAll, List.foldl_cons, ← changeAll, ih, leftBy_cons_iff, get?_change,
      List.forall_mem_cons]
    by_cases hpath : p.components = change.path.components
    · simp [hpath]
    · simp [hpath, Ne.symm hpath]

/-- What can be told of the file at a path from the changes by which the files have come about. -/
structure FollowsChanges (changes : List FileChange) (files : MemoryFiles) (p : Path) : Prop where
  /-- The file yields what the last change of it put there. -/
  found : ∀ content, files.source.Yields p content ↔ LeftBy changes p content
  /-- Otherwise there is none. -/
  notFound : (∃ e, files.source.openFile p = .error e ∧ e.kind = .notFound)
    ↔ ∀ content, ¬ LeftBy changes p content
  /-- Removing it says whether it could have been opened. -/
  removed : (files.remove p).2 = true ↔ ∃ stream, files.source.openFile p = .ok stream
  /-- A change of another file makes no difference to it. -/
  apart : ∀ change, change.path.components ≠ p.components →
    (files.change change).source.openFile p = files.source.openFile p
      ∧ (files.change change).source.readText p = files.source.readText p

theorem followsChanges (changes : List FileChange) (p : Path) :
    FollowsChanges changes (empty.changeAll changes) p := by
  have hget : ∀ content, (empty.changeAll changes).get? p = some content
      ↔ LeftBy changes p content := fun content => by
    rw [get?_changeAll_eq_some_iff, get?_empty]
    simp
  generalize empty.changeAll changes = files at hget ⊢
  refine ⟨fun content => yields_iff.trans (hget content), ?_, ?_, fun change hpath => ?_⟩
  · simp only [← hget, openFile_eq_error_iff, ← ne_eq, ← Option.eq_none_iff_forall_ne_some]
    exact ⟨fun ⟨_, ⟨hnone, _⟩, _⟩ => hnone, fun hnone => ⟨_, ⟨hnone, rfl⟩, rfl⟩⟩
  · rw [remove, Option.isSome_iff_exists]
    simp only [openFile_eq_ok_iff]
    exact ⟨fun ⟨content, h⟩ => ⟨_, content, h, rfl⟩, fun ⟨_, content, h, _⟩ => ⟨content, h⟩⟩
  · have hsame : (files.change change).get? p = files.get? p := by
      rw [get?_change, if_neg (Ne.symm hpath)]
    constructor
    · simp only [source, hsame]
    · rw [readText_source, readText_source, hsame]

/-- Files in memory are a map from paths up to their components. Whatever changes have been made, a
file yields what the last change of it put there, however its path was written then and is written
now, and is not found if that change took it away or there was none. Both ways to read it agree.
Paths have the same components if and only if they differ in repeated separators, dots between
separators and separators at the end, and a dot in front does make a difference. -/
theorem files_are_map :
    (∀ changes p, FollowsChanges changes (empty.changeAll changes) p
      ∧ ReadsAlike (empty.changeAll changes).source p)
    ∧ (∀ p q : Path, p.components = q.components ↔ Relation.EqvGen Path.Respelled p q)
    ∧ ∀ s : String, Path.components ⟨"./" ++ s⟩ = Path.components ⟨s⟩
      ↔ s = "." ∨ ∃ t, s = "./" ++ t :=
  ⟨fun changes p => ⟨followsChanges changes p, readsAlike _ p⟩, fun _ _ => Path.components_eq_iff,
    fun _ => Path.components_dot_iff⟩

/-- Changes of two files, one of them under two spellings, and a removal of a third one that is not
there. -/
def mixedChanges : List FileChange :=
  [.insert ⟨"d//a"⟩ [0xFF], .insert ⟨"d/a/"⟩ (Utf8.encode "ä"), .insert ⟨"./d/a"⟩ [0xFF],
    .remove ⟨"b"⟩]

/-- The later of two contents is read, as bytes and as a text, although a file with a dot in front
of its path has been changed since. That one is no text, and removing it makes no difference to the
first one. -/
theorem files_are_map_mixed :
    (empty.changeAll mixedChanges).source.Yields ⟨"d/./a"⟩ (Utf8.encode "ä")
      ∧ (empty.changeAll mixedChanges).source.readText ⟨"d/./a"⟩ = .ok "ä"
      ∧ (∃ e, (empty.changeAll mixedChanges).source.readText ⟨".//d/a"⟩ = .error e
        ∧ e.kind ≠ .notFound)
      ∧ (∃ e, (empty.changeAll mixedChanges).source.openFile ⟨"b"⟩ = .error e ∧ e.kind = .notFound)
      ∧ ((empty.changeAll mixedChanges).change (.remove ⟨"./d/a"⟩)).source.openFile ⟨"d/./a"⟩
        = (empty.changeAll mixedChanges).source.openFile ⟨"d/./a"⟩
      ∧ ((empty.changeAll mixedChanges).remove ⟨"d/a"⟩).2 = true := by
  obtain ⟨hfiles, -, -⟩ := files_are_map
  have hleft : ∀ p : Path, p.components = [.name "d", .name "a"] →
      LeftBy mixedChanges p (Utf8.encode "ä") := fun p hp =>
    ⟨[.insert ⟨"d//a"⟩ [0xFF]], ⟨"d/a/"⟩, [.insert ⟨"./d/a"⟩ [0xFF], .remove ⟨"b"⟩], rfl,
      by rw [hp]; decide, by rw [hp]; decide⟩
  have hdotted : LeftBy mixedChanges ⟨".//d/a"⟩ [0xFF] :=
    ⟨[.insert ⟨"d//a"⟩ [0xFF], .insert ⟨"d/a/"⟩ (Utf8.encode "ä")], ⟨"./d/a"⟩, [.remove ⟨"b"⟩], rfl,
      by decide, by decide⟩
  have habsent : ∀ content, ¬ LeftBy mixedChanges ⟨"b"⟩ content := by
    rintro content ⟨past, q, future, heq, hpath, -⟩
    have hmem : FileChange.insert q content ∈ mixedChanges :=
      heq ▸ List.mem_append_right _ List.mem_cons_self
    simp only [mixedChanges, List.mem_cons, FileChange.insert.injEq, reduceCtorEq, List.not_mem_nil,
      or_false] at hmem
    rcases hmem with ⟨rfl, -⟩ | ⟨rfl, -⟩ | ⟨rfl, -⟩
    all_goals exact absurd hpath (by decide)
  have hnone : ¬ Utf8.IsText [0xFF] :=
    Utf8.decode?_eq_none_iff.mp (by rw [Utf8.decode?, Utf8.decodePrefix]; rfl)
  obtain ⟨hfollows, hreads⟩ := hfiles mixedChanges ⟨"d/./a"⟩
  have hyields := (hfollows.found _).mpr (hleft ⟨"d/./a"⟩ (by decide))
  obtain ⟨hdottedFollows, hdottedReads⟩ := hfiles mixedChanges ⟨".//d/a"⟩
  have hbytes := (hdottedFollows.found _).mpr hdotted
  have hplain := (hfiles mixedChanges ⟨"d/a"⟩).1
  obtain ⟨stream, hopen, -⟩ := (hplain.found _).mpr (hleft ⟨"d/a"⟩ (by decide))
  exact ⟨hyields, (hreads.text "ä").mpr hyields, hdottedReads.notText.mpr ⟨_, hbytes, hnone⟩,
    (hfiles mixedChanges ⟨"b"⟩).1.notFound.mpr habsent,
    (hfollows.apart (.remove ⟨"./d/a"⟩) (by decide)).1, hplain.removed.mpr ⟨stream, hopen⟩⟩

end MemoryFiles

end BootTrust
