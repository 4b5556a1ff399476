import BootTrust.Proofs.Json.Strings
import Mathlib.Algebra.Group.Nat.Defs
/-
What UTF-8 keeps of a text. The decoder takes the encodings of texts and nothing else
(`decode?_eq_some_iff`), and the bytes of two texts stand in the order of their characters
(`encode_le_encode_iff`).

Both come from one form of a code: a first byte, which fixes how many bytes follow, and behind it
the lowest digits of the number of the character in base 64 (`trail`). The decoder reads the
digits one by one, so what it has read is a trail (`continue?_taken`). Trails of one length are
compared like their numbers (`trail_append_lt`), and a greater first byte belongs to a greater
number (`lt_of_lead_lt`).
-/

set_option autoImplicit false

namespace BootTrust.Utf8

/-- The lowest `count` digits of `v` in base 64, highest first, each in a byte that continues a
character. -/
def trail : (count v : Nat) → Bytes
  | 0, _ => []
  | count + 1, v => UInt8.ofNat (v / 64 ^ count % 64 + 128) :: trail count v

/-! ## What the decoder takes -/

theorem continue?_taken {count v w : Nat} {bytes rest : Bytes}
    (h : continue? count v bytes = some (w, rest)) :
    bytes = trail count w ++ rest ∧ w / 64 ^ count = v := by
  induction count generalizing v bytes with
  | zero =>
    cases h
    exact ⟨rfl, by simp⟩
  | succ count ih =>
    rcases bytes with _ | ⟨b, bytes⟩
    · cases h
    rw [continue?] at h
    split at h
    next hb =>
      obtain ⟨rfl, hw⟩ := ih h
      simp only [isContinuation, Bool.and_eq_true, decide_eq_true_iff] at hb
      have hdigit : w / 64 ^ count % 64 + 128 = b.toNat := by omega
      refine ⟨?_, ?_⟩
      · rw [trail, hdigit, UInt8.ofNat_toNat]
        rfl
      · rw [Nat.pow_succ, ← Nat.div_div_eq_div_mul, hw]
        omega
    next => cases h

/-- The four kinds of first bytes. -/
theorem Lead.ofByte?_cases {b : UInt8} {lead : Lead} (h : Lead.ofByte? b = some lead) :
    (lead = ⟨0, b.toNat, 0⟩ ∧ b.toNat < 0x80)
      ∨ (lead = ⟨1, b.toNat - 0xC0, 0x80⟩ ∧ 0xC0 ≤ b.toNat ∧ b.toNat < 0xE0)
      ∨ (lead = ⟨2, b.toNat - 0xE0, 0x800⟩ ∧ 0xE0 ≤ b.toNat ∧ b.toNat < 0xF0)
      ∨ (lead = ⟨3, b.toNat - 0xF0, 0x10000⟩ ∧ 0xF0 ≤ b.toNat ∧ b.toNat < 0xF8) := by
  simp only [Lead.ofByte?] at h
  split at h
  · cases h
    exact Or.inl ⟨rfl, ‹_›⟩
  split at h
  · cases h
  split at h
  · cases h
    exact Or.inr (Or.inl ⟨rfl, by omega⟩)
  split at h
  · cases h
    exact Or.inr (Or.inr (Or.inl ⟨rfl, by omega⟩))
  split at h
  · cases h
    exact Or.inr (Or.inr (Or.inr ⟨rfl, by omega⟩))
  · cases h

/-- That a character of the number `v` is written with `b` in front, which announces `lead`. -/
structure Leads (b : UInt8) (lead : Lead) (v : Nat) : Prop where
  ofByte : Lead.ofByte? b = some lead
  payload : v / 64 ^ lead.more = lead.payload
  least : lead.least ≤ v

/-- The number that was read is the number that is written so. -/
theorem Leads.utf8EncodeChar {b : UInt8} {lead : Lead} {c : Char} (h : Leads b lead c.val.toNat) :
    String.utf8EncodeChar c = b :: trail lead.more c.val.toNat := by
  obtain ⟨hbyte, hpayload, hleast⟩ := h
  have hfirst : ∀ n, n = b.toNat → UInt8.ofNat n = b := fun n hn => by rw [hn, UInt8.ofNat_toNat]
  unfold String.utf8EncodeChar
  generalize c.val.toNat = v at *
  rcases Lead.ofByte?_cases hbyte with ⟨rfl, hb⟩ | ⟨rfl, hb⟩ | ⟨rfl, hb⟩ | ⟨rfl, hb⟩
  · have hv : v = b.toNat := by simpa using hpayload
    simp only [trail, if_pos (show v ≤ 127 by omega), hfirst v hv]
  · simp only at hpayload hleast
    simp only [trail, if_neg (show ¬ v ≤ 127 by omega), if_pos (show v ≤ 2047 by omega),
      hfirst (v / 64 % 32 + 192) (by omega)]
    simp
  · simp only at hpayload hleast
    simp only [trail, if_neg (show ¬ v ≤ 127 by omega), if_neg (show ¬ v ≤ 2047 by omega),
      if_pos (show v ≤ 65535 by omega), hfirst (v / 4096 % 16 + 224) (by omega)]
    simp
  · simp only at hpayload hleast
    simp only [trail, if_neg (show ¬ v ≤ 127 by omega), if_neg (show ¬ v ≤ 2047 by omega),
      if_neg (show ¬ v ≤ 65535 by omega), hfirst (v / 262144 % 8 + 240) (by omega)]
    simp

theorem decodeChar?_taken {bytes rest : Bytes} {c : Char} (h : decodeChar? bytes = some (c, rest)) :
    ∃ b lead, Leads b lead c.val.toNat ∧ bytes = b :: trail lead.more c.val.toNat ++ rest := by
  rcases bytes with _ | ⟨b, bytes⟩
  · cases h
  simp only [decodeChar?, Option.bind_eq_bind, Option.bind_eq_some_iff] at h
  obtain ⟨lead, hlead, ⟨v, left⟩, hread, h⟩ := h
  obtain ⟨hbytes, hpayload⟩ := continue?_taken hread
  split at h
  next hvalid =>
    cases h
    have hnumber : (Char.ofNat v).val.toNat = v := by
      rw [Char.ofNat, dif_pos hvalid.2]
      rfl
    rw [hnumber, hbytes]
    exact ⟨b, lead, ⟨hlead, hpayload, hvalid.1⟩, rfl⟩
  next => cases h

theorem decodePrefix_taken {bytes left : Bytes} {cs : List Char}
    (h : decodePrefix bytes = (cs, left)) : bytes = cs.flatMap String.utf8EncodeChar ++ left := by
  fun_induction decodePrefix bytes generalizing cs left with
  | case1 bytes hnone =>
    cases h
    rfl
  | case2 bytes c rest hchar hshorter more left' hmore ih =>
    cases h
    obtain ⟨b, lead, hleads, rfl⟩ := decodeChar?_taken hchar
    rw [List.flatMap_cons, hleads.utf8EncodeChar, List.append_assoc, ← ih hmore]

/-- A text is read from its own bytes only. -/
theorem decode?_eq_some_iff {bytes : Bytes} {s : String} :
    decode? bytes = some s ↔ encode s = bytes := by
  constructor
  · intro h
    rw [decode?] at h
    split at h
    next cs hread =>
      cases h
      rw [decodePrefix_taken hread, List.append_nil, encode, String.toList_ofList]
    next => cases h
  · rintro rfl
    exact decode?_encode s

theorem decode?_eq_none_iff {bytes : Bytes} : decode? bytes = none ↔ ¬ IsText bytes := by
  rw [Option.eq_none_iff_forall_ne_some, IsText, not_exists]
  simp only [ne_eq, decode?_eq_some_iff]

/-! ## Order -/

theorem exists_leads (c : Char) : ∃ b lead, Leads b lead c.val.toNat := by
  obtain ⟨b, lead, hleads, -⟩ := decodeChar?_taken (decodeChar?_encode_append c [])
  exact ⟨b, lead, hleads⟩

/-- A lesser first byte belongs to a lesser number. -/
theorem lt_of_lead_lt {b b' : UInt8} {lead lead' : Lead} {v w : Nat} (hv : Leads b lead v)
    (hw : Leads b' lead' w) (h : b < b') : v < w := by
  obtain ⟨hbyte, hpayload, -⟩ := hv
  obtain ⟨hbyte', hpayload', hleast'⟩ := hw
  rw [UInt8.lt_iff_toNat_lt] at h
  -- if the second one announces more bytes, its number is too great for the first one
  rcases Lead.ofByte?_cases hbyte with ⟨rfl, hb⟩ | ⟨rfl, hb⟩ | ⟨rfl, hb⟩ | ⟨rfl, hb⟩ <;>
  rcases Lead.ofByte?_cases hbyte' with ⟨rfl, hb'⟩ | ⟨rfl, hb'⟩ | ⟨rfl, hb'⟩ | ⟨rfl, hb'⟩ <;>
  simp only at hpayload hpayload' hleast' <;> omega

/-- Of two numbers with the same digits in front the lesser one has the lesser trail, whatever comes
behind it. -/
theorem trail_append_lt {count v w : Nat} (hlt : v < w) (hfront : v / 64 ^ count = w / 64 ^ count)
    (x y : Bytes) : trail count v ++ x < trail count w ++ y := by
  induction count with
  | zero =>
    rw [Nat.pow_zero, Nat.div_one, Nat.div_one] at hfront
    exact absurd hfront (Nat.ne_of_lt hlt)
  | succ count ih =>
    rw [Nat.pow_succ, ← Nat.div_div_eq_div_mul, ← Nat.div_div_eq_div_mul] at hfront
    have hbyte : ∀ n, (UInt8.ofNat (n % 64 + 128)).toNat = n % 64 + 128 := fun n => by
      rw [UInt8.toNat_ofNat', Nat.mod_eq_of_lt (by omega)]
    rw [trail, trail, List.cons_append, List.cons_append, List.cons_lt_cons_iff,
      UInt8.lt_iff_toNat_lt, hbyte, hbyte]
    have hfronts : v / 64 ^ count ≤ w / 64 ^ count := Nat.div_le_div_right (Nat.le_of_lt hlt)
    rcases Nat.lt_or_eq_of_le hfronts with hless | hsame
    · exact Or.inl (by omega)
    · exact Or.inr ⟨by rw [hsame], ih hsame⟩

/-- The code of a lesser character is less, and so early that what comes behind the codes does not
matter. -/
theorem utf8EncodeChar_append_lt {c d : Char} (h : c < d) (x y : Bytes) :
    String.utf8EncodeChar c ++ x < String.utf8EncodeChar d ++ y := by
  have hlt : c.val.toNat < d.val.toNat := by rwa [Char.lt_def, UInt32.lt_iff_toNat_lt] at h
  obtain ⟨b, lead, hleads⟩ := exists_leads c
  obtain ⟨b', lead', hleads'⟩ := exists_leads d
  rw [hleads.utf8EncodeChar, hleads'.utf8EncodeChar, List.cons_append, List.cons_append,
    List.cons_lt_cons_iff]
  by_cases hsame : b = b'
  · subst hsame
    obtain rfl : lead = lead' := Option.some_inj.mp (hleads.ofByte.symm.trans hleads'.ofByte)
    exact Or.inr ⟨rfl, trail_append_lt hlt (hleads.payload.trans hleads'.payload.symm) x y⟩
  · refine Or.inl (UInt8.lt_of_le_of_ne (UInt8.not_lt.mp fun hgreater => ?_) hsame)
    exact absurd (lt_of_lead_lt hleads' hleads hgreater) (Nat.not_lt.mpr (Nat.le_of_lt hlt))

theorem flatMap_utf8EncodeChar_lt {cs ds : List Char} (h : cs < ds) :
    cs.flatMap String.utf8EncodeChar < ds.flatMap String.utf8EncodeChar := by
  induction h with
  | @nil d ds =>
    obtain ⟨b, lead, hleads⟩ := exists_leads d
    rw [List.flatMap_nil, List.flatMap_cons, hleads.utf8EncodeChar]
    exact List.nil_lt_cons b _
  | rel hchar =>
    rw [List.flatMap_cons, List.flatMap_cons]
    exact utf8EncodeChar_append_lt hchar _ _
  | cons _ ih =>
    rw [List.flatMap_cons, List.flatMap_cons]
    exact List.append_left_lt ih

/-- The order of texts is the order of their bytes. -/
theorem encode_le_encode_iff {s t : String} : encode s ≤ encode t ↔ s ≤ t := by
  have hlt : ∀ {s t : String}, s < t → encode s < encode t := fun h => flatMap_utf8EncodeChar_lt h
  constructor
  · intro h hgreater
    exact List.not_lt.mpr h (hlt hgreater)
  · intro h hgreater
    by_cases hless : s < t
    · exact List.lt_asymm (hlt hless) hgreater
    · rw [String.le_antisymm h hless] at hgreater
      exact List.lt_irrefl _ hgreater

end BootTrust.Utf8
