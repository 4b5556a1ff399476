import BootTrust.Proofs.Device.Drives
/-
Which volume counts when labels are looked up. The first volume with a label decides, and of this
volume nothing but its drive (`resolveVolume_of_first`). If the drive is no good the label is not
looked for any further: a volume behind it that carries the same label is not tried, so a stick
cannot be put in the place of one that reports nothing.

A drive is no good exactly if it has nothing but blanks. Separators alone and a colon alone are kept
when a drive is normalised, and what is kept is the beginning of the drive behind its blanks
(`normalizeChars_isPrefix`), so nothing else leads to an empty drive.
-/

set_option autoImplicit false

namespace BootTrust.Device

open Text

variable {probe : Probe} {volumes : List Volume} {label drive : String}

/-- That the first volume with a label reports a drive. -/
def FirstReports (volumes : List Volume) (label drive : String) : Prop :=
  ∃ before after, volumes = before ++ ⟨label, drive⟩ :: after ∧ ∀ v ∈ before, v.label ≠ label

/-- The look-up finds what the first volume with the label reports. -/
theorem FirstReports.find?_eq (h : FirstReports volumes label drive) :
    volumes.find? (·.label = label) = some ⟨label, drive⟩ := by
  obtain ⟨before, after, rfl, hbefore⟩ := h
  rw [List.find?_append, List.find?_eq_none.mpr fun v hv => by simpa using hbefore v hv,
    List.find?_cons_of_pos (by simp), Option.none_or]

/-- If a volume carries a label, there is a first one. -/
theorem exists_firstReports (h : ∃ v ∈ volumes, v.label = label) :
    ∃ drive, FirstReports volumes label drive := by
  rcases hfind : volumes.find? (·.label = label) with _ | ⟨found, drive⟩
  · obtain ⟨v, hv, hlabel⟩ := h
    exact absurd hlabel (by simpa using List.find?_eq_none.mp hfind v hv)
  · obtain ⟨hlabel, before, after, hvolumes, hbefore⟩ := List.find?_eq_some_iff_append.mp hfind
    obtain rfl : found = label := by simpa using hlabel
    exact ⟨drive, before, after, hvolumes, fun v hv => by simpa using hbefore v hv⟩

/-! ## Drives that lead to nothing -/

/-- A drive is normalised to nothing if and only if it has nothing but blanks. -/
theorem isEmpty_normalizeDrive (drive : String) :
    (normalizeDrive drive).isEmpty = isAllBlank drive := by
  rw [Bool.eq_iff_iff, String.isEmpty_iff, isAllBlank, List.all_eq_true, ← trimChars_eq_nil_iff,
    ← normalizeChars_eq_nil_iff, normalizeDrive, ← String.ofList_nil, String.ofList_inj]

/-! ## Looking a label up -/

/-- A label is resolved by the drive that the first volume with it reports, whatever else there
is. -/
theorem resolveVolume_of_first (hvolumes : probe.volumes = .ok volumes)
    (h : FirstReports volumes label drive) :
    resolveVolume probe label
      = if isAllBlank drive then .error (.emptyDriveLetter label)
        else .ok (normalizeDrive drive) := by
  rw [resolveVolume, hvolumes, ← isEmpty_normalizeDrive]
  simp only [bind, Except.bind, h.find?_eq]

/-- A label is not found if and only if no volume carries it. -/
theorem resolveVolume_notFound_iff (hvolumes : probe.volumes = .ok volumes) :
    resolveVolume probe label = .error (.volumeNotFound label)
      ↔ ∀ v ∈ volumes, v.label ≠ label := by
  constructor
  · intro herror v hv hlabel
    obtain ⟨drive, hfirst⟩ := exists_firstReports ⟨v, hv, hlabel⟩
    rw [resolveVolume_of_first hvolumes hfirst] at herror
    split at herror
    · cases herror
    · cases herror
  · intro hnone
    have hfind : volumes.find? (·.label = label) = none :=
      List.find?_eq_none.mpr fun v hv => by simpa using hnone v hv
    rw [resolveVolume, hvolumes]
    simp only [bind, Except.bind, hfind]

/-- What comes of a label that is first carried by a volume with a drive. -/
structure IsDecidedBy (drive : String) (probe : Probe) (label : String) : Prop where
  /-- The label is refused exactly if the drive has nothing but blanks. -/
  refused : resolveVolume probe label = .error (.emptyDriveLetter label) ↔ isAllBlank drive = true
  /-- Otherwise it leads to the beginning of the drive behind its blanks, which is there and does
  not begin with one. -/
  resolved : isAllBlank drive = false →
    ∃ resolved, resolveVolume probe label = .ok resolved ∧ resolved ≠ ""
      ∧ (∀ c, resolved.toList.head? = some c → isBlank c = false)
      ∧ resolved.toList <+: trimChars drive.toList

theorem isDecidedBy (hvolumes : probe.volumes = .ok volumes)
    (h : FirstReports volumes label drive) : IsDecidedBy drive probe label := by
  have hresult := resolveVolume_of_first hvolumes h
  rcases hblank : isAllBlank drive with _ | _
  · rw [hblank, if_neg Bool.false_ne_true] at hresult
    have hthere : normalizeDrive drive ≠ "" := by
      rw [ne_eq, ← String.isEmpty_iff, isEmpty_normalizeDrive, hblank]
      exact Bool.false_ne_true
    have hchars := toList_normalizeDrive drive
    refine ⟨?_, fun _ => ⟨_, hresult, hthere, ?_, ?_⟩⟩
    · rw [hresult, hblank]
      simp
    · rw [hchars]
      exact head?_normalizeChars_not_blank _
    · rw [hchars]
      exact normalizeChars_isPrefix _
  · rw [hblank, if_pos rfl] at hresult
    refine ⟨?_, fun hother => ?_⟩
    · rw [hresult, hblank]
      simp
    · rw [hblank] at hother
      cases hother

/-- A label is not found exactly if no volume carries it. If one does, the first of them decides by
its drive: the label is refused exactly if the drive has nothing but blanks, and otherwise it leads
to a drive that is there and does not begin with a blank. Two devices on which the first volume with
the label has the same drive give the same answer. -/
theorem resolved_by_first_match (label : String) :
    (∀ probe volumes, probe.volumes = .ok volumes →
      (resolveVolume probe label = .error (.volumeNotFound label) ↔ ∀ v ∈ volumes, v.label ≠ label)
      ∧ ((∃ v ∈ volumes, v.label = label) → ∃ drive, FirstReports volumes label drive)
      ∧ ∀ drive, FirstReports volumes label drive → IsDecidedBy drive probe label)
    ∧ ∀ probe probe' volumes volumes' drive, probe.volumes = .ok volumes →
      probe'.volumes = .ok volumes' → FirstReports volumes label drive →
      FirstReports volumes' label drive →
      resolveVolume probe label = resolveVolume probe' label := by
  refine ⟨fun probe volumes hvolumes =>
      ⟨resolveVolume_notFound_iff hvolumes, exists_firstReports, fun drive hfirst => ?_⟩,
    fun probe probe' volumes volumes' drive hvolumes hvolumes' hfirst hfirst' => ?_⟩
  · exact isDecidedBy hvolumes hfirst
  · rw [resolveVolume_of_first hvolumes hfirst, resolveVolume_of_first hvolumes' hfirst']

/-- Two volumes with one label, the first of which reports nothing but a wide blank. -/
def twiceLabelled : List Volume :=
  [⟨"SYSTEM", "C:"⟩, ⟨"USB", " \u3000"⟩, ⟨"USB", "D:"⟩]

/-- The second volume with the label has a letter and is not taken. Where the first one reports two
separators, these are what its label leads to, and what comes before it and after it makes no
difference. -/
theorem resolved_by_first_match_twice :
    resolveVolume (.fixed twiceLabelled [] none none) "USB" = .error (.emptyDriveLetter "USB")
    ∧ resolveVolume (.fixed twiceLabelled [] none none) "usb" = .error (.volumeNotFound "usb")
    ∧ (∃ resolved, resolveVolume (.fixed [⟨"USB", " \\/"⟩] [] none none) "USB" = .ok resolved
      ∧ resolved ≠ "")
    ∧ resolveVolume (.fixed [⟨"USB", " \\/"⟩] [] none none) "USB"
      = resolveVolume (.fixed [⟨"SYSTEM", "C:"⟩, ⟨"USB", " \\/"⟩, ⟨"USB", "D:"⟩] [] none none)
        "USB" := by
  have hfirst : FirstReports twiceLabelled "USB" " \u3000" :=
    ⟨[⟨"SYSTEM", "C:"⟩], [⟨"USB", "D:"⟩], rfl, by decide⟩
  have hplain : FirstReports [⟨"USB", " \\/"⟩] "USB" " \\/" := ⟨[], [], rfl, by decide⟩
  have hamong : FirstReports [⟨"SYSTEM", "C:"⟩, ⟨"USB", " \\/"⟩, ⟨"USB", "D:"⟩] "USB" " \\/" :=
    ⟨[⟨"SYSTEM", "C:"⟩], [⟨"USB", "D:"⟩], rfl, by decide⟩
  obtain ⟨-, -, hdecided⟩ :=
    (resolved_by_first_match "USB").1 (.fixed twiceLabelled [] none none) _ rfl
  obtain ⟨hnone, -⟩ := (resolved_by_first_match "usb").1 (.fixed twiceLabelled [] none none) _ rfl
  obtain ⟨-, -, hseparators⟩ :=
    (resolved_by_first_match "USB").1 (.fixed [⟨"USB", " \\/"⟩] [] none none) _ rfl
  obtain ⟨resolved, hresolved, hthere, -⟩ := (hseparators _ hplain).resolved (by decide)
  refine ⟨(hdecided _ hfirst).refused.mpr (by decide), hnone.mpr (by decide),
    ⟨resolved, hresolved, hthere⟩, ?_⟩
  exact (resolved_by_first_match "USB").2 _ _ _ _ _ rfl rfl hplain hamong

end BootTrust.Device
