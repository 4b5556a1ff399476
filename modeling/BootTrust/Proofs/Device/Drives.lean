import BootTrust.Proofs.Device.MediaPath
import BootTrust.Proofs.Steps
import BootTrust.Proofs.Text.Trimming
/-
The spelling of a drive that others lead to, and when it leads to itself. Blanks are taken from both
ends of a drive first and separators from its end after that, so a blank in front of such separators
is at the end now. It would be taken away if the drive were normalised again, and more after it.

That is all that can happen. What comes out begins with no blank and ends in none of the separators
that were taken away, and if it does not end in a blank either, it stands
(`normalizeChars_eq_self_iff`). A volume is resolved to its normalised drive, and the image is
looked for on this drive normalised once more, so a drive that does not stand is left for another
one (`mediaPath_normalizeDrive_iff`).
-/

set_option autoImplicit false

namespace BootTrust.Device

open Text

variable {cs : List Char} {c : Char}

/-! ## Normalising -/

/-- A drive without blanks at its ends and without separators at the end that is left. -/
def bareChars (drive : List Char) : List Char :=
  (trimChars drive).rdropWhile isSeparator

theorem normalizeChars_of_nil (h : bareChars cs = []) : normalizeChars cs = trimChars cs := by
  have hletter : ((trimChars cs).reverse.dropWhile isSeparator).reverse = [] := h
  rw [normalizeChars, hletter]

theorem normalizeChars_of_letter (h : bareChars cs = [c, ':']) (hc : c.toNat < 0x80) :
    normalizeChars cs = [c] := by
  have hletter : ((trimChars cs).reverse.dropWhile isSeparator).reverse = [c, ':'] := h
  rw [normalizeChars, hletter]
  exact if_pos ⟨hc, rfl⟩

theorem normalizeChars_of_other (hne : bareChars cs ≠ [])
    (hletter : ∀ c, bareChars cs = [c, ':'] → ¬ c.toNat < 0x80) :
    normalizeChars cs = bareChars cs := by
  rcases hbare : bareChars cs with _ | ⟨c, rest⟩
  · exact absurd hbare hne
  · have hbare' : ((trimChars cs).reverse.dropWhile isSeparator).reverse = c :: rest := hbare
    rw [normalizeChars, hbare']
    refine if_neg ?_
    rintro ⟨hc, rfl⟩
    exact hletter c hbare hc

/-- Which of the three spellings a drive leads to. -/
theorem normalizeChars_cases (cs : List Char) :
    (bareChars cs = [] ∧ normalizeChars cs = trimChars cs)
    ∨ (∃ c, bareChars cs = [c, ':'] ∧ c.toNat < 0x80 ∧ normalizeChars cs = [c])
    ∨ (bareChars cs ≠ [] ∧ (∀ c, bareChars cs = [c, ':'] → ¬ c.toNat < 0x80)
      ∧ normalizeChars cs = bareChars cs) := by
  by_cases hnil : bareChars cs = []
  · exact Or.inl ⟨hnil, normalizeChars_of_nil hnil⟩
  by_cases hletter : ∃ c, bareChars cs = [c, ':'] ∧ c.toNat < 0x80
  · obtain ⟨c, hbare, hc⟩ := hletter
    exact Or.inr (Or.inl ⟨c, hbare, hc, normalizeChars_of_letter hbare hc⟩)
  · have hother : ∀ c, bareChars cs = [c, ':'] → ¬ c.toNat < 0x80 :=
      fun c hbare hc => hletter ⟨c, hbare, hc⟩
    exact Or.inr (Or.inr ⟨hnil, hother, normalizeChars_of_other hnil hother⟩)

/-- Behind its blanks a drive begins with its normalised spelling. -/
theorem normalizeChars_isPrefix (cs : List Char) : normalizeChars cs <+: trimChars cs := by
  have hbare : bareChars cs <+: trimChars cs := List.rdropWhile_prefix isSeparator _
  rcases normalizeChars_cases cs with ⟨-, heq⟩ | ⟨c, hletter, -, heq⟩ | ⟨-, -, heq⟩
  · rw [heq]
  · rw [heq]
    rw [hletter] at hbare
    exact List.IsPrefix.trans ⟨[':'], rfl⟩ hbare
  · rwa [heq]

/-- A drive leads to nothing only if it has nothing but blanks. -/
theorem normalizeChars_eq_nil_iff : normalizeChars cs = [] ↔ trimChars cs = [] := by
  constructor
  · intro h
    rcases normalizeChars_cases cs with ⟨-, heq⟩ | ⟨c, -, -, heq⟩ | ⟨hne, -, heq⟩
    · rw [← heq, h]
    · rw [heq] at h
      cases h
    · exact absurd (heq.symm.trans h) hne
  · intro h
    exact List.prefix_nil.mp (h ▸ normalizeChars_isPrefix cs)

/-- What a drive leads to does not begin with a blank. -/
theorem head?_normalizeChars_not_blank (cs : List Char) :
    ∀ c, (normalizeChars cs).head? = some c → isBlank c = false := by
  intro c hc
  obtain ⟨behind, htrim⟩ := normalizeChars_isPrefix cs
  refine head?_trimChars_not_blank cs c ?_
  rw [← htrim, List.head?_append, hc]
  rfl

/-! ## A blank at the end -/

/-- A blank is at the end only if separators behind it were taken away. -/
theorem exists_of_getLast?_normalizeChars {blank : Char}
    (hlast : (normalizeChars cs).getLast? = some blank) (hblank : isBlank blank = true) :
    ∃ front separators, trimChars cs = front ++ blank :: separators ∧ separators ≠ []
      ∧ ∀ c ∈ separators, isSeparator c = true := by
  have hnot : (trimChars cs).getLast? ≠ some blank := fun h =>
    ne_of_isBlank (getLast?_trimChars_not_blank cs blank h) hblank rfl
  rcases normalizeChars_cases cs with ⟨-, heq⟩ | ⟨c, -, -, heq⟩ | ⟨-, -, heq⟩
  · rw [heq] at hlast
    exact absurd hlast hnot
  · have hfirst := head?_normalizeChars_not_blank cs c (by rw [heq]; rfl)
    rw [heq, List.getLast?_singleton] at hlast
    exact absurd (Option.some_inj.mp hlast) (ne_of_isBlank hfirst hblank)
  · rw [heq] at hlast
    obtain ⟨front, hbare⟩ := List.getLast?_eq_some_iff.mp hlast
    have hsplit : bareChars cs ++ (trimChars cs).rtakeWhile isSeparator = trimChars cs :=
      List.rdropWhile_append_rtakeWhile ..
    refine ⟨front, (trimChars cs).rtakeWhile isSeparator, ?_, fun hnil => ?_,
      fun c hc => List.mem_rtakeWhile_imp hc⟩
    · rw [hbare, List.append_assoc, List.singleton_append] at hsplit
      exact hsplit.symm
    · rw [hnil, List.append_nil] at hsplit
      rw [hsplit] at hlast
      exact hnot hlast

/-- A blank that has nothing but separators behind it is left at the end. -/
theorem getLast?_normalizeChars {front separators : List Char} {blank : Char}
    (htrim : trimChars cs = front ++ blank :: separators) (hblank : isBlank blank = true)
    (hall : ∀ c ∈ separators, isSeparator c = true) :
    (normalizeChars cs).getLast? = some blank := by
  have hother : ∀ {c}, isBlank c = false → blank ≠ c := fun hc => (ne_of_isBlank hc hblank).symm
  have hstop : isSeparator blank = false := by
    rw [isSeparator, decide_eq_false (hother (by decide)), decide_eq_false (hother (by decide)),
      Bool.or_false]
  have hbare : bareChars cs = front ++ [blank] := by
    rw [bareChars, htrim, ← List.singleton_append, ← List.append_assoc]
    exact rdropWhile_append hall (by simpa using hstop)
  have hletter : ∀ c, bareChars cs ≠ [c, ':'] := by
    intro c hc
    rw [hbare] at hc
    have hcolon : blank = ':' := by simpa using congrArg List.getLast? hc
    exact hother (by decide) hcolon
  rw [normalizeChars_of_other (by simp [hbare]) fun c hc => absurd hc (hletter c), hbare,
    List.getLast?_concat]

/-! ## Normalising again -/

/-- A drive that stands has no blank at its end, whatever it is. -/
theorem getLast?_of_normalizeChars_eq_self (h : normalizeChars cs = cs) :
    ∀ c, cs.getLast? = some c → isBlank c = false := by
  have hfront := normalizeChars_isPrefix cs
  rw [h] at hfront
  have htrim : trimChars cs = cs :=
    (trimChars_isInfix cs).eq_of_length_le hfront.length_le
  intro c hc
  rw [← htrim] at hc
  exact getLast?_trimChars_not_blank cs c hc

/-- What a drive leads to stands if and only if it does not end in a blank. -/
theorem normalizeChars_eq_self_iff : normalizeChars (normalizeChars cs) = normalizeChars cs
    ↔ ∀ c, (normalizeChars cs).getLast? = some c → isBlank c = false := by
  refine ⟨getLast?_of_normalizeChars_eq_self, fun hlast => ?_⟩
  have htrim : trimChars (normalizeChars cs) = normalizeChars cs :=
    trimChars_eq_self (head?_normalizeChars_not_blank cs) hlast
  rcases normalizeChars_cases cs with ⟨hnil, heq⟩ | ⟨c, -, -, heq⟩ | ⟨hne, hletter, heq⟩
  -- nothing but separators, which are kept again
  · have hagain : bareChars (normalizeChars cs) = [] := by
      rw [bareChars, htrim, heq]
      exact hnil
    rw [normalizeChars_of_nil hagain, htrim]
  -- a single byte, which may be a separator itself
  · have hbare : bareChars (normalizeChars cs) = if isSeparator c then [] else [c] := by
      rw [bareChars, htrim, heq, List.rdropWhile_singleton]
    rcases hseparator : isSeparator c with _ | _
    · rw [hseparator, if_neg Bool.false_ne_true] at hbare
      rw [normalizeChars_of_other (by simp [hbare]) (by simp [hbare]), hbare, heq]
    · rw [hseparator, if_pos rfl] at hbare
      rw [normalizeChars_of_nil hbare, htrim]
  -- no separator is left at the end
  · have hagain : bareChars (normalizeChars cs) = bareChars cs := by
      rw [bareChars, htrim, heq]
      exact List.rdropWhile_idempotent isSeparator _
    rw [normalizeChars_of_other (by rwa [hagain]) (by rwa [hagain]), hagain, heq]

/-- What does not stand leads to something shorter next, which is there. -/
theorem length_normalizeChars_lt
    (h : ¬ ∀ c, (normalizeChars cs).getLast? = some c → isBlank c = false) :
    (normalizeChars (normalizeChars cs)).length < (normalizeChars cs).length
      ∧ normalizeChars (normalizeChars cs) ≠ [] := by
  have hfront := normalizeChars_isPrefix (normalizeChars cs)
  have hwithin := trimChars_isInfix (normalizeChars cs)
  constructor
  · refine lt_of_le_of_ne (hfront.length_le.trans hwithin.length_le) fun hlength => h ?_
    have hkept : normalizeChars (normalizeChars cs) = trimChars (normalizeChars cs) :=
      hfront.eq_of_length_le (by rw [hlength]; exact hwithin.length_le)
    have htrim : trimChars (normalizeChars cs) = normalizeChars cs :=
      hwithin.eq_of_length (by rw [← hkept, hlength])
    exact normalizeChars_eq_self_iff.mp (hkept.trans htrim)
  -- the first character is no blank, so not everything is trimmed
  · rw [ne_eq, normalizeChars_eq_nil_iff, trimChars_eq_nil_iff]
    intro hall
    rcases hchars : normalizeChars cs with _ | ⟨first, more⟩
    · rw [hchars] at h
      exact h fun c hc => by cases hc
    · have hfirst := head?_normalizeChars_not_blank cs first (by rw [hchars]; rfl)
      rw [hall first (by rw [hchars]; exact List.mem_cons_self)] at hfirst
      cases hfirst

/-- Whether a drive ends in a blank. -/
def endsInBlank (drive : String) : Bool :=
  drive.toList.getLast?.any isBlank

theorem endsInBlank_eq_true_iff {drive : String} :
    endsInBlank drive = true ↔ ∃ c, drive.toList.getLast? = some c ∧ isBlank c = true := by
  rw [endsInBlank]
  rcases drive.toList.getLast? with _ | c
  · simp
  · simp

theorem endsInBlank_eq_false_iff {drive : String} :
    endsInBlank drive = false ↔ ∀ c, drive.toList.getLast? = some c → isBlank c = false := by
  rw [endsInBlank]
  rcases drive.toList.getLast? with _ | c
  · simp
  · simp

theorem toList_normalizeDrive (drive : String) :
    (normalizeDrive drive).toList = normalizeChars drive.toList := by
  rw [normalizeDrive, String.toList_ofList]

theorem normalizeDrive_eq_self_iff (drive : String) :
    normalizeDrive (normalizeDrive drive) = normalizeDrive drive
    ↔ endsInBlank (normalizeDrive drive) = false := by
  rw [endsInBlank_eq_false_iff, toList_normalizeDrive, ← normalizeChars_eq_self_iff,
    ← String.toList_inj, toList_normalizeDrive, toList_normalizeDrive]

/-- A drive leads to one that ends in a blank exactly if there is a blank in front of the separators
that it ends in. -/
theorem endsInBlank_normalizeDrive_iff (drive : String) :
    endsInBlank (normalizeDrive drive) = true
      ↔ ∃ front blank separators, trimChars drive.toList = front ++ blank :: separators
        ∧ isBlank blank = true ∧ separators ≠ [] ∧ ∀ c ∈ separators, isSeparator c = true := by
  rw [endsInBlank_eq_true_iff, toList_normalizeDrive]
  constructor
  · rintro ⟨blank, hlast, hblank⟩
    obtain ⟨front, separators, htrim, hthere, hall⟩ :=
      exists_of_getLast?_normalizeChars hlast hblank
    exact ⟨front, blank, separators, htrim, hblank, hthere, hall⟩
  · rintro ⟨front, blank, separators, htrim, hblank, -, hall⟩
    exact ⟨blank, getLast?_normalizeChars htrim hblank hall, hblank⟩

/-! ## The image on a drive that is normalised again -/

/-- If the relative path is nothing but separators, the path on a drive with a letter ends in
one. -/
theorem getLast?_of_letter {drive relative : String} (hdrive : (normalizeDrive drive).toList = [c])
    (hletter : isLetter c = true) (hnone : relativeParts relative = []) :
    (mediaPath relative drive).text.toList.getLast? = some '\\' := by
  have hall := separators_of_relativeParts_eq_nil hnone
  have hlist : (backslashed relative).toList
      = relative.toList.map fun c => if c = '/' then '\\' else c :=
    String.toList_ofList
  rw [mediaPath_of_letter relative hdrive hletter]
  simp only [String.toList_append, hlist, hdrive]
  rcases List.eq_nil_or_concat relative.toList with hnil | ⟨init, last, hconcat⟩
  · rw [hnil]
    rfl
  · have hlast : isSeparator last = true := hall last (by rw [hconcat]; simp)
    rw [hconcat, List.concat_eq_append, List.map_append, List.map_singleton,
      backslash_of_isSeparator hlast, ← List.append_assoc, List.getLast?_concat]

section EndsInBlank

variable {drive : String} (hblank : endsInBlank (normalizeDrive drive) = true)

include hblank

/-- A drive that ends in a blank is no letter, since it would begin with this blank. -/
theorem not_isLetterDrive_of_endsInBlank : ¬ IsLetterDrive (normalizeDrive drive) := by
  rintro ⟨c, hdrive, -⟩
  have hfirst :=
    head?_normalizeChars_not_blank drive.toList c (by rw [← toList_normalizeDrive, hdrive]; rfl)
  rw [endsInBlank, hdrive, List.getLast?_singleton, Option.any_some, hfirst] at hblank
  cases hblank

theorem getLast?_ne_of_endsInBlank (hc : isBlank c = false) :
    (normalizeDrive drive).toList.getLast? ≠ some c := by
  intro h
  obtain ⟨last, hlast, hlastBlank⟩ := endsInBlank_eq_true_iff.mp hblank
  exact ne_of_isBlank hc hlastBlank (Option.some_inj.mp (h.symm.trans hlast))

theorem length_lt_of_endsInBlank :
    (normalizeDrive (normalizeDrive drive)).toList.length < (normalizeDrive drive).toList.length
      ∧ normalizeDrive (normalizeDrive drive) ≠ "" := by
  have hlast : ¬ ∀ c, (normalizeChars drive.toList).getLast? = some c → isBlank c = false := by
    rw [← toList_normalizeDrive, ← endsInBlank_eq_false_iff, hblank]
    exact Bool.noConfusion
  obtain ⟨hlt, hne⟩ := length_normalizeChars_lt hlast
  rw [← toList_normalizeDrive, ← toList_normalizeDrive] at hlt hne
  exact ⟨hlt, fun h => hne (by rw [h]; rfl)⟩

/-- The image is looked for somewhere else then. If the relative path has parts, a letter has no
slash before them and a directory has one, and two directories of different lengths have different
paths. -/
theorem mediaPath_ne_of_endsInBlank (relative : String) :
    mediaPath relative (normalizeDrive drive) ≠ mediaPath relative drive := by
  intro heq
  obtain ⟨hlt, hthere'⟩ := length_lt_of_endsInBlank hblank
  have hthere : normalizeDrive drive ≠ "" := by
    intro h
    rw [h] at hlt
    exact Nat.not_lt_zero _ hlt
  rw [mediaPath_of_directory relative (not_isLetterDrive_of_endsInBlank hblank)] at heq
  by_cases hnone : relativeParts relative = []
  · rw [hnone, List.foldl_nil] at heq
    by_cases hletter : IsLetterDrive (normalizeDrive (normalizeDrive drive))
    · obtain ⟨letter, hdrive, hletter⟩ := hletter
      have hend := getLast?_of_letter hdrive hletter hnone
      rw [heq] at hend
      exact getLast?_ne_of_endsInBlank hblank (by decide) hend
    · rw [mediaPath_of_directory relative hletter, hnone, List.foldl_nil] at heq
      rw [Path.mk.inj heq] at hlt
      exact lt_irrefl _ hlt
  · have htext :=
      Path.text_foldl_join (p := ⟨normalizeDrive drive⟩) hthere hnone (relativeParts_spec relative)
    by_cases hletter : IsLetterDrive (normalizeDrive (normalizeDrive drive))
    · obtain ⟨letter, hdrive, hletter⟩ := hletter
      refine slash_not_mem_of_letter relative hdrive hletter ?_
      rw [heq, htext]
      exact List.mem_append_left _ (Path.slash_mem_openText _)
    · have htext' := Path.text_foldl_join (p := ⟨normalizeDrive (normalizeDrive drive)⟩) hthere'
        hnone (relativeParts_spec relative)
      rw [mediaPath_of_directory relative hletter] at heq
      rw [← heq, htext'] at htext
      have hopen := congrArg List.length (List.append_cancel_right htext)
      have hle := Path.length_openText_le ⟨normalizeDrive (normalizeDrive drive)⟩
      rw [hopen, Path.openText, if_neg (getLast?_ne_of_endsInBlank hblank (by decide)),
        List.length_append] at hle
      exact absurd (Nat.succ_le_succ_iff.mp hle) (Nat.not_le.mpr hlt)

end EndsInBlank

/-- The image is looked for at the same place on a drive and on what it leads to exactly if the
latter stands. -/
theorem mediaPath_normalizeDrive_iff (relative drive : String) :
    mediaPath relative (normalizeDrive drive) = mediaPath relative drive
      ↔ endsInBlank (normalizeDrive drive) = false := by
  constructor
  · intro heq
    exact Bool.eq_false_iff.mpr fun hblank => mediaPath_ne_of_endsInBlank hblank relative heq
  · intro hblank
    rw [mediaPath, mediaPath, (normalizeDrive_eq_self_iff drive).mpr hblank]

/-! ## Resolved volumes -/

/-- A volume is resolved to the normalised drive of the first one with its label. -/
theorem resolveVolume_eq_ok_iff {probe : Probe} {label resolved : String} :
    resolveVolume probe label = .ok resolved
      ↔ ∃ volumes volume, probe.volumes = .ok volumes
        ∧ volumes.find? (·.label = label) = some volume
        ∧ normalizeDrive volume.drive = resolved ∧ resolved ≠ "" := by
  rw [resolveVolume, Steps.bind_eq_ok_iff]
  constructor
  · rintro ⟨volumes, hvolumes, hresolved⟩
    split at hresolved
    · cases hresolved
    next volume hfind =>
    simp only at hresolved
    split at hresolved
    · cases hresolved
    next hthere =>
    have hdrive := Except.ok.inj hresolved
    exact ⟨volumes, volume, hvolumes, hfind, hdrive, by simpa [← hdrive] using hthere⟩
  · rintro ⟨volumes, volume, hvolumes, hfind, rfl, hthere⟩
    refine ⟨volumes, hvolumes, ?_⟩
    simp only [hfind]
    rw [if_neg (by simpa using hthere)]

/-- A drive that was normalised stands if and only if it does not end in a blank, which it does if
the drive had a blank in front of separators at its end. A volume that reported the drive is
resolved to one that has the image where the drive itself has it, under the same condition and no
other. -/
theorem resolved_drive_stands_iff (drive : String) :
    (normalizeDrive (normalizeDrive drive) = normalizeDrive drive
      ↔ endsInBlank (normalizeDrive drive) = false)
    ∧ (endsInBlank (normalizeDrive drive) = true
      ↔ ∃ front blank separators, trimChars drive.toList = front ++ blank :: separators
        ∧ isBlank blank = true ∧ separators ≠ [] ∧ ∀ c ∈ separators, isSeparator c = true)
    ∧ ∀ probe label resolved, resolveVolume probe label = .ok resolved →
      ∃ volumes volume, probe.volumes = .ok volumes ∧ volumes.find? (·.label = label) = some volume
        ∧ (volume.drive = drive → resolved = normalizeDrive drive
          ∧ ∀ relative, mediaPath relative resolved = mediaPath relative drive
            ↔ endsInBlank resolved = false) := by
  refine ⟨normalizeDrive_eq_self_iff drive, endsInBlank_normalizeDrive_iff drive,
    fun probe label resolved hresolved => ?_⟩
  obtain ⟨volumes, volume, hvolumes, hfind, hdrive, -⟩ := resolveVolume_eq_ok_iff.mp hresolved
  refine ⟨volumes, volume, hvolumes, hfind, ?_⟩
  rintro rfl
  rw [← hdrive]
  exact ⟨rfl, fun relative => mediaPath_normalizeDrive_iff relative volume.drive⟩

/-- A stick that reports its letter with a colon and separators. -/
theorem resolved_drive_stands_letter :
    let probe := Probe.fixed [⟨"BEYONDCORP", " D:\\/ "⟩] [] none none
    resolveVolume probe "BEYONDCORP" = .ok "D"
      ∧ mediaPath "boot.wim" "D" = mediaPath "boot.wim" " D:\\/ " := by
  intro probe
  have hresolved : resolveVolume probe "BEYONDCORP" = .ok "D" := by decide
  obtain ⟨-, -, hvolume⟩ := resolved_drive_stands_iff " D:\\/ "
  obtain ⟨volumes, volume, hvolumes, hfind, hplace⟩ := hvolume probe "BEYONDCORP" "D" hresolved
  cases hvolumes
  cases hfind
  obtain ⟨-, hmedia⟩ := hplace rfl
  exact ⟨hresolved, (hmedia "boot.wim").mpr (by decide)⟩

/-- A directory of which the name ends in a blank is reported with a separator behind it. What it
leads to does not stand, and the image is looked for in another directory. -/
theorem resolved_drive_does_not_stand :
    let probe := Probe.fixed [⟨"BEYONDCORP", "/media/usb /"⟩] [] none none
    normalizeDrive (normalizeDrive "/media/usb /") ≠ normalizeDrive "/media/usb /"
      ∧ resolveVolume probe "BEYONDCORP" = .ok "/media/usb "
      ∧ mediaPath "boot.wim" "/media/usb " = ⟨"/media/usb/boot.wim"⟩
      ∧ mediaPath "boot.wim" "/media/usb /" = ⟨"/media/usb /boot.wim"⟩ := by
  decide

end BootTrust.Device
