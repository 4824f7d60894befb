import SdrProxy.Basic
import SdrProxy.Lib.Stdio

/-!
# Channel info texts

The 25-byte text that announces a channel configuration: `put_channel_data` prints it with the
format `"SPS: %3d Chans: %1d Type: %1d"`, the receiving side scans it with `CHANINFOSCANFMT` and
checks the numbers with `check_channel_info`.  `sscanf_chanInfoText` says that the scan reads back
what was printed, for every configuration; `length_chanInfoText` that the text of a configuration
that passes the check has exactly the length the receiving side takes off its ring.
-/

namespace SdrProxy

open Stdio

/-- `" Chans: "`. -/
def CHANSTEXT : List UInt8 := [0x20, 0x43, 0x68, 0x61, 0x6E, 0x73, 0x3A, 0x20]

/-- `" Type: "`. -/
def TYPETEXT : List UInt8 := [0x20, 0x54, 0x79, 0x70, 0x65, 0x3A, 0x20]

/-- What `sprintf` prints with `"SPS: %3d Chans: %1d Type: %1d"`. -/
def chanInfoText (c : ChannelInfo) : List UInt8 :=
  CHANTOKEN ++ fmtNat 3 c.sps ++ CHANSTEXT ++ fmtNat 1 c.numChannels ++ TYPETEXT ++ fmtNat 1 c.type

/-- The directives of a format string: a blank is white space, `%d` is written `%`. -/
def scanFmt (s : List UInt8) : List Directive :=
  s.map fun b => if b = 0x20 then .ws else if b = 0x25 then .int else .lit b

/-- `CHANINFOSCANFMT`, `"SPS: %d Chans: %d Type: %d "`. -/
def CHANINFOSCANFMT : List Directive :=
  scanFmt (CHANTOKEN ++ [0x25] ++ CHANSTEXT ++ [0x25] ++ TYPETEXT ++ [0x25, 0x20])

/-- The sample rates `check_channel_info` knows. -/
def valid_sps : List ℤ := [10, 20, 25, 50, 100, 200, 500]

/-- `check_channel_info`: 0 if the values are known valid ones, else 1. -/
def checkChannelInfo (sps chans type : ℤ) : ℤ :=
  if chans < 1 ∨ MAXCHANNELS < chans then 1
  else if type < 1 ∨ 9 < type then 1
  else if sps ∈ valid_sps then 0
  else 1

/-- A configuration that passes `check_channel_info`. -/
def ChannelInfo.Valid (c : ChannelInfo) : Prop :=
  checkChannelInfo c.sps c.numChannels c.type = 0

instance (c : ChannelInfo) : Decidable c.Valid := inferInstanceAs (Decidable (_ = _))

theorem checkChannelInfo_eq_zero {sps chans type : ℤ} : checkChannelInfo sps chans type = 0 ↔
    (1 ≤ chans ∧ chans ≤ 8) ∧ (1 ≤ type ∧ type ≤ 9) ∧ sps ∈ valid_sps := by
  unfold checkChannelInfo MAXCHANNELS
  constructor
  · intro h
    split_ifs at h with h₁ h₂ h₃
    · exact absurd h one_ne_zero
    · exact absurd h one_ne_zero
    · exact ⟨by omega, by omega, h₃⟩
    · exact absurd h one_ne_zero
  · rintro ⟨hch, hty, hsps⟩
    have h₁ : ¬ (chans < 1 ∨ 8 < chans) := by omega
    have h₂ : ¬ (type < 1 ∨ 9 < type) := by omega
    simp only [h₁, h₂, hsps, ↓reduceIte]

theorem ChannelInfo.valid_iff {c : ChannelInfo} : c.Valid ↔
    (1 ≤ c.numChannels ∧ c.numChannels ≤ 8) ∧ (1 ≤ c.type ∧ c.type ≤ 9) ∧
      (c.sps : ℤ) ∈ valid_sps := by
  rw [Valid, checkChannelInfo_eq_zero]
  norm_cast

/-- What passes `check_channel_info` keeps its value in a record. -/
theorem ChannelInfo.valid_of_check {sps chans type : ℤ} (h : checkChannelInfo sps chans type = 0) :
    (⟨sps.toNat, chans.toNat, type.toNat⟩ : ChannelInfo).Valid := by
  obtain ⟨hch, hty, hsps⟩ := checkChannelInfo_eq_zero.1 h
  have hpos : 0 ≤ sps := by
    simp only [valid_sps, List.mem_cons, List.not_mem_nil, or_false] at hsps
    omega
  rw [Valid, Int.toNat_of_nonneg hpos, Int.toNat_of_nonneg (by omega),
    Int.toNat_of_nonneg (by omega)]
  exact h

/-! ### The text of a configuration -/

theorem le_length_chanInfoText (c : ChannelInfo) : CHANINFOLEN ≤ (chanInfoText c).length := by
  have h₁ := le_length_fmtNat 3 c.sps
  have h₂ := le_length_fmtNat 1 c.numChannels
  have h₃ := le_length_fmtNat 1 c.type
  have hchans : CHANSTEXT.length = 8 := rfl
  have htype : TYPETEXT.length = 7 := rfl
  have htoken : CHANTOKEN.length = 5 := rfl
  simp only [chanInfoText, List.length_append, hchans, htype, htoken, CHANINFOLEN]
  omega

theorem length_take_chanInfoText (c : ChannelInfo) :
    ((chanInfoText c).take CHANINFOLEN).length = CHANINFOLEN := by
  rw [List.length_take]
  exact Nat.min_eq_left (le_length_chanInfoText c)

theorem length_dec_of_lt {n : ℕ} (h : n < 10) : (dec n).length = 1 := by
  interval_cases n <;> rfl

theorem length_fmtNat_sps {n : ℕ} (h : (n : ℤ) ∈ valid_sps) : (fmtNat 3 n).length = 3 := by
  simp only [valid_sps, List.mem_cons, List.not_mem_nil, or_false] at h
  obtain rfl | rfl | rfl | rfl | rfl | rfl | rfl :
      n = 10 ∨ n = 20 ∨ n = 25 ∨ n = 50 ∨ n = 100 ∨ n = 200 ∨ n = 500 := by omega
  all_goals decide

/-- **The text of a valid configuration is 25 bytes long.** -/
theorem length_chanInfoText {c : ChannelInfo} (h : c.Valid) :
    (chanInfoText c).length = CHANINFOLEN := by
  obtain ⟨hch, hty, hsps⟩ := ChannelInfo.valid_iff.1 h
  have h₁ : (fmtNat 1 c.numChannels).length = 1 := by
    simp [fmtNat, length_dec_of_lt (show c.numChannels < 10 by omega)]
  have h₂ : (fmtNat 1 c.type).length = 1 := by
    simp [fmtNat, length_dec_of_lt (show c.type < 10 by omega)]
  simp only [chanInfoText, List.length_append, length_fmtNat_sps hsps, h₁, h₂]
  rfl

theorem mem_fmtNat {w n : ℕ} {b : UInt8} (h : b ∈ fmtNat w n) : b = 0x20 ∨ isDigit b = true := by
  rcases List.mem_append.1 h with h | h
  · exact .inl (List.eq_of_mem_replicate h)
  · exact .inr (isDigit_of_mem_dec h)

theorem mem_chanInfoText {c : ChannelInfo} {b : UInt8} (h : b ∈ chanInfoText c) :
    0x20 ≤ b ∧ b ≤ 0x7A := by
  have hfmt : ∀ {w n : ℕ}, b ∈ fmtNat w n → 0x20 ≤ b ∧ b ≤ 0x7A := by
    intro w n hb
    rcases mem_fmtNat hb with rfl | hd
    · decide
    · simp only [isDigit, Bool.and_eq_true, decide_eq_true_eq, UInt8.le_iff_toNat_le] at hd ⊢
      simp at hd ⊢
      omega
  have hlit : ∀ {l : List UInt8}, (∀ x ∈ l, 0x20 ≤ x ∧ x ≤ 0x7A) → b ∈ l → 0x20 ≤ b ∧ b ≤ 0x7A :=
    fun hl hb => hl b hb
  simp only [chanInfoText, List.mem_append] at h
  rcases h with ((((h | h) | h) | h) | h) | h
  · exact hlit (by decide +kernel) h
  · exact hfmt h
  · exact hlit (by decide +kernel) h
  · exact hfmt h
  · exact hlit (by decide +kernel) h
  · exact hfmt h

/-- **The scan reads back what was printed.** -/
theorem sscanf_chanInfoText (c : ChannelInfo) :
    sscanf CHANINFOSCANFMT (chanInfoText c) = [(c.sps : ℤ), c.numChannels, c.type] := by
  have hz : cstr (chanInfoText c) = chanInfoText c := by
    have hall : ∀ b ∈ chanInfoText c, decide (b ≠ 0) = true := by
      intro b hb
      have : b ≠ 0 := by rintro rfl; exact absurd (mem_chanInfoText hb).1 (by decide)
      simpa using this
    exact List.takeWhile_eq_self_iff.2 hall
  have hch : (CHANSTEXT ++ (fmtNat 1 c.numChannels ++ (TYPETEXT ++ fmtNat 1 c.type))).takeWhile
      isDigit = [] := rfl
  have hty : (TYPETEXT ++ fmtNat 1 c.type).takeWhile isDigit = [] := rfl
  have hend : ([] : List UInt8).takeWhile isDigit = [] := rfl
  -- the literal characters are scanned one by one, the three numbers by `scan_int_fmtNat`
  have h₃ : scan [.int, .ws] (fmtNat 1 c.type) = [(c.type : ℤ)] := by
    have := scan_int_fmtNat 1 c.type [.ws] hend
    rwa [List.append_nil] at this
  have h₂ : scan (scanFmt ([0x25] ++ TYPETEXT ++ [0x25, 0x20]))
      (fmtNat 1 c.numChannels ++ (TYPETEXT ++ fmtNat 1 c.type)) =
      [(c.numChannels : ℤ), c.type] := by
    refine (scan_int_fmtNat 1 c.numChannels _ hty).trans ?_
    rw [← h₃, ← scan_int_space, ← scan_ws_int]
    rfl
  have h₁ : scan (scanFmt ([0x25] ++ CHANSTEXT ++ ([0x25] ++ TYPETEXT ++ [0x25, 0x20])))
      (fmtNat 3 c.sps ++
        (CHANSTEXT ++ (fmtNat 1 c.numChannels ++ (TYPETEXT ++ fmtNat 1 c.type)))) =
      [(c.sps : ℤ), c.numChannels, c.type] := by
    refine (scan_int_fmtNat 3 c.sps _ hch).trans ?_
    rw [← h₂]
    change _ = _ :: scan (.int :: _) _
    rw [← scan_int_space, ← scan_ws_int]
    rfl
  rw [sscanf, hz, ← h₁]
  change _ = scan (.int :: _) _
  rw [← scan_int_space, ← scan_ws_int]
  simp only [chanInfoText, List.append_assoc]
  rfl

end SdrProxy
