import BootTrust.Device
import BootTrust.Proofs.Path.Joining
/-
Where the boot image lies on a drive. A drive with a letter has its path written out with
backslashes, which is one name to a system that separates by slashes. Any other drive is a
directory, and the path goes on from there by the parts of the relative path, none of which holds a
separator. So nothing that is configured as the relative path takes the place of the drive
(`components_mediaPath`), however it begins.

Both ways see only where the separators are, and not of which kind they are.
-/

set_option autoImplicit false

namespace BootTrust.Device

variable {drive : String} {c : Char}

/-! ## The two ways -/

/-- Whether a normalised drive is a letter. -/
def IsLetterDrive (drive : String) : Prop :=
  ∃ c, drive.toList = [c] ∧ isLetter c = true

/-- A relative path with backslashes as its separators. -/
def backslashed (relative : String) : String :=
  String.ofList (relative.toList.map fun c => if c = '/' then '\\' else c)

theorem mediaPath_of_letter (relative : String) (hdrive : (normalizeDrive drive).toList = [c])
    (hletter : isLetter c = true) :
    mediaPath relative drive = ⟨normalizeDrive drive ++ ":\\" ++ backslashed relative⟩ := by
  rw [mediaPath]
  simp only [hdrive, hletter, if_true]
  rfl

theorem mediaPath_of_directory (relative : String) (h : ¬ IsLetterDrive (normalizeDrive drive)) :
    mediaPath relative drive = (relativeParts relative).foldl Path.join ⟨normalizeDrive drive⟩ := by
  rw [mediaPath]
  split
  · next c hdrive =>
    have hletter : ¬ isLetter c = true := fun hletter => h ⟨c, hdrive, hletter⟩
    rw [if_neg hletter]
  · rfl

/-! ## Letters -/

theorem backslash_of_isSeparator (hc : isSeparator c = true) :
    (if c = '/' then '\\' else c) = '\\' := by
  rw [isSeparator, Bool.or_eq_true, decide_eq_true_iff, decide_eq_true_iff] at hc
  rcases hc with rfl | rfl
  · rfl
  · rfl

theorem slash_not_mem_backslashed (relative : String) : '/' ∉ (backslashed relative).toList := by
  rw [backslashed, String.toList_ofList, List.mem_map]
  rintro ⟨c, -, hc⟩
  split at hc
  · cases hc
  · contradiction

/-- The path on a drive with a letter has no separator that a directory could end at. -/
theorem slash_not_mem_of_letter (relative : String) (hdrive : (normalizeDrive drive).toList = [c])
    (hletter : isLetter c = true) :
    '/' ∉ (mediaPath relative drive).text.toList := by
  have hslash : ∀ c, isLetter c = true → c ≠ '/' := by
    rintro c hc rfl
    exact absurd hc (by decide)
  rw [mediaPath_of_letter relative hdrive hletter, String.toList_append,
    String.toList_append, hdrive]
  simp only [List.mem_append, List.mem_singleton, not_or]
  exact ⟨⟨(hslash c hletter).symm, by decide⟩, slash_not_mem_backslashed relative⟩

/-! ## Directories -/

/-- A part of a relative path is not empty and holds no separator. -/
theorem relativeParts_spec (relative : String) :
    ∀ part ∈ relativeParts relative, part ≠ "" ∧ '/' ∉ part.toList := by
  intro part hpart
  obtain ⟨chars, hchars, rfl⟩ := List.mem_map.mp hpart
  obtain ⟨hmem, hne⟩ := List.mem_filter.mp hchars
  refine ⟨by simpa using hne, fun hslash => ?_⟩
  rw [String.toList_ofList] at hslash
  exact absurd (Text.parts_no_separator _ chars hmem _ hslash) (by decide)

/-- A relative path without parts is nothing but separators. -/
theorem separators_of_relativeParts_eq_nil {relative : String} (h : relativeParts relative = []) :
    ∀ c ∈ relative.toList, isSeparator c = true := by
  have hempty : ∀ part ∈ Text.parts isSeparator relative.toList, part = [] := by
    rw [relativeParts, List.map_eq_nil_iff, List.filter_eq_nil_iff] at h
    exact fun part hpart => by simpa using h part hpart
  generalize relative.toList = cs at hempty
  induction cs with
  | nil => exact fun c hc => absurd hc List.not_mem_nil
  | cons c cs ih =>
    rw [Text.parts] at hempty
    split at hempty
    · next hc =>
      exact List.forall_mem_cons.mpr ⟨hc,
        ih fun part hpart => hempty part (List.mem_cons_of_mem _ hpart)⟩
    · split at hempty
      · exact absurd (hempty _ List.mem_cons_self) (by simp)
      · exact absurd (hempty _ List.mem_cons_self) (by simp)

/-- What the parts of a relative path stand for, the empty ones among them or not. -/
theorem filterMap_relativeParts (relative : String) :
    ((relativeParts relative).filterMap fun part => Component.ofPart? part.toList)
      = (Text.parts isSeparator relative.toList).filterMap Component.ofPart? := by
  rw [relativeParts, List.filterMap_map, List.filterMap_filter]
  refine List.filterMap_congr fun part _ => ?_
  by_cases hpart : part = []
  · rw [hpart]
    rfl
  · simp [hpart]

/-- The components of the drive stay in front, and the parts of the relative path come behind
them. -/
theorem components_mediaPath (relative : String) (hdrive : normalizeDrive drive ≠ "")
    (h : ¬ IsLetterDrive (normalizeDrive drive)) :
    (mediaPath relative drive).components = (Path.mk (normalizeDrive drive)).components
      ++ (Text.parts isSeparator relative.toList).filterMap Component.ofPart? := by
  have hparts : ∀ part ∈ relativeParts relative, '/' ∉ part.toList :=
    fun part hpart => (relativeParts_spec relative part hpart).2
  have hthere : (Path.mk (normalizeDrive drive)).text ≠ "" := hdrive
  rw [mediaPath_of_directory relative h, Path.components_foldl_join hthere hparts,
    filterMap_relativeParts]

/-- A part is shown as it is written, unless it stands for nothing. -/
theorem texts_of_parts (parts : List (List Char)) :
    (parts.filterMap Component.ofPart?).map Component.text
      = (parts.filter fun part => part ≠ [] ∧ part ≠ ['.']).map String.ofList := by
  induction parts with
  | nil => rfl
  | cons part parts ih =>
    by_cases hidle : part = [] ∨ part = ['.']
    · have hnone : Component.ofPart? part = none :=
        Component.ofPart?_of_isIdle (by simpa [Component.isIdle] using hidle)
      have hskip : ¬ (part ≠ [] ∧ part ≠ ['.']) := by
        rwa [← not_or, not_not]
      rw [List.filterMap_cons_none hnone, List.filter_cons, if_neg (by simpa using hskip), ih]
    · have hkeep : part ≠ [] ∧ part ≠ ['.'] := not_or.mp hidle
      obtain ⟨component, hsome, htext⟩ : ∃ component, Component.ofPart? part = some component
          ∧ component.text = String.ofList part := by
        rw [Component.ofPart?, if_neg (by simpa [Component.isIdle] using hidle)]
        by_cases hup : part = ['.', '.']
        · exact ⟨.up, if_pos hup, by rw [hup]; rfl⟩
        · exact ⟨.name (String.ofList part), if_neg hup, rfl⟩
      rw [List.filterMap_cons_some hsome, List.map_cons, htext, ih, List.filter_cons,
        if_pos (by simpa using hkeep), List.map_cons]

/-! ## The kind of the separators -/

/-- Whether two relative paths differ at most in the kind of their separators. -/
def SameButSeparators (relative relative' : String) : Prop :=
  List.Forall₂ (fun c c' => c = c' ∨ isSeparator c = true ∧ isSeparator c' = true)
    relative.toList relative'.toList

section Separators

variable {cs cs' : List Char}
  (h : List.Forall₂ (fun c c' => c = c' ∨ isSeparator c = true ∧ isSeparator c' = true) cs cs')

include h

/-- Written with backslashes, texts that differ in the kind of their separators are the same. -/
theorem map_backslash_congr :
    cs.map (fun c => if c = '/' then '\\' else c)
      = cs'.map fun c => if c = '/' then '\\' else c := by
  induction h with
  | nil => rfl
  | cons hc _ ih =>
    rw [List.map_cons, List.map_cons, ih]
    rcases hc with rfl | ⟨hc, hc'⟩
    · rfl
    · rw [backslash_of_isSeparator hc, backslash_of_isSeparator hc']

/-- So are their parts. -/
theorem parts_congr : Text.parts isSeparator cs = Text.parts isSeparator cs' := by
  induction h with
  | nil => rfl
  | cons hc _ ih =>
    rw [Text.parts, Text.parts, ih]
    rcases hc with rfl | ⟨hc, hc'⟩
    · rfl
    · rw [if_pos hc, if_pos hc']

end Separators

theorem mediaPath_congr {relative relative' : String} (h : SameButSeparators relative relative')
    (drive : String) : mediaPath relative drive = mediaPath relative' drive := by
  by_cases hdrive : IsLetterDrive (normalizeDrive drive)
  · obtain ⟨c, hc, hletter⟩ := hdrive
    rw [mediaPath_of_letter relative hc hletter, mediaPath_of_letter relative' hc hletter,
      backslashed, backslashed, map_backslash_congr h]
  · rw [mediaPath_of_directory relative hdrive, mediaPath_of_directory relative' hdrive,
      relativeParts, relativeParts, parts_congr h]

/-! ## Below the drive -/

/-- Whether a path goes on from a directory by the parts of a relative path: the components of the
directory stand in front, the parts that are neither empty nor a dot behind them, and where there
are no parts it is the directory. -/
structure GoesOn (directory relative : String) (p : Path) : Prop where
  components : p.components = (Path.mk directory).components
    ++ (Text.parts isSeparator relative.toList).filterMap Component.ofPart?
  texts : p.components.map Component.text = (Path.mk directory).components.map Component.text
    ++ ((Text.parts isSeparator relative.toList).filter
      fun part => part ≠ [] ∧ part ≠ ['.']).map String.ofList
  alone : (∀ part ∈ Text.parts isSeparator relative.toList, part = []) → p = ⟨directory⟩

/-- The boot image lies on the drive, whatever the relative path is. -/
theorem mediaPath_on_drive (drive relative : String) :
    (∀ c, (normalizeDrive drive).toList = [c] → isLetter c = true →
      (mediaPath relative drive).text = normalizeDrive drive ++ ":\\" ++ backslashed relative
        ∧ '/' ∉ (mediaPath relative drive).text.toList)
    ∧ (normalizeDrive drive ≠ "" → ¬ IsLetterDrive (normalizeDrive drive) →
      GoesOn (normalizeDrive drive) relative (mediaPath relative drive))
    ∧ ∀ relative', SameButSeparators relative relative' →
      mediaPath relative drive = mediaPath relative' drive := by
  refine ⟨fun c hc hletter => ⟨?_, slash_not_mem_of_letter relative hc hletter⟩,
    fun hne hdirectory => ?_, fun relative' h => mediaPath_congr h drive⟩
  · rw [mediaPath_of_letter relative hc hletter]
  · have hcomponents := components_mediaPath relative hne hdirectory
    refine ⟨hcomponents, ?_, fun hnone => ?_⟩
    · rw [hcomponents, List.map_append, texts_of_parts]
    · have hparts : relativeParts relative = [] := by
        rw [relativeParts, List.map_eq_nil_iff, List.filter_eq_nil_iff]
        intro part hpart
        simpa using hnone part hpart
      rw [mediaPath_of_directory relative hdirectory, hparts]
      rfl

/-- A letter in an unusual spelling, a relative path that begins like an absolute one and climbs,
one that is nothing but separators, and one of the same kind with the other separators. -/
theorem mediaPath_on_drive_mixed :
    (mediaPath "/a\\b//" " d:/ ").text = "d:\\\\a\\b\\\\"
      ∧ (mediaPath "\\..\\./a//b/" "/media/usb/").components.map Component.text
        = ["/", "media", "usb", "..", "a", "b"]
      ∧ mediaPath "/\\/" "/media/usb/" = ⟨"/media/usb"⟩
      ∧ mediaPath "/a\\b//" "/media/usb/" = mediaPath "\\a/b/\\" "/media/usb/" := by
  have husb : normalizeDrive "/media/usb/" = "/media/usb" := by decide
  have hthere : normalizeDrive "/media/usb/" ≠ "" := by rw [husb]; decide
  have hdirectory : ¬ IsLetterDrive (normalizeDrive "/media/usb/") := by
    rintro ⟨c, hc, -⟩
    have hlength : (normalizeDrive "/media/usb/").toList.length = 1 := by rw [hc]; rfl
    exact absurd hlength (by decide)
  have hletter := (mediaPath_on_drive " d:/ " "/a\\b//").1 'd' (by decide) (by decide)
  have hclimbing := (mediaPath_on_drive "/media/usb/" "\\..\\./a//b/").2.1 hthere hdirectory
  have halone := (mediaPath_on_drive "/media/usb/" "/\\/").2.1 hthere hdirectory
  refine ⟨hletter.1.trans (by decide), hclimbing.texts.trans (by decide), ?_, ?_⟩
  · rw [halone.alone (by decide), husb]
  · exact (mediaPath_on_drive "/media/usb/" "/a\\b//").2.2 _
      (by simp [SameButSeparators, isSeparator])

end BootTrust.Device
