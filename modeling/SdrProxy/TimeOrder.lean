import Mathlib.Tactic.IntervalCases
import SdrProxy.Lib.Blocks
import SdrProxy.Time

/-!
# The order of packet times

`decode_pkt_time` against the order of the header fields that it reads.

* `CalendarTime` : the fields of a header, with their range (`Valid`), their order (`fields`) and
  the milliseconds since the start of 1970 (`millis`);
* `CalendarTime.millis_lt_iff` : the milliseconds are in the order of the fields;
* `inTimeT_iff` : which headers have a second count that a 32-bit `time_t` can hold;
* `decodePktTime_lt_iff` : for which pairs of headers the decoded times are in order: those that
  both have one, and those that both have none and whose milliseconds alone are in order.
-/

namespace SdrProxy

/-! ### The calendar -/

/-- The days of a year. -/
def daysInYear (year : ℤ) : ℤ := if isLeap year then 366 else 365

/-- The days of a month, 1 to 12. -/
def daysInMonth (leap : Bool) (mon : ℤ) : ℤ :=
  if mon = 2 then if leap then 29 else 28
  else if mon = 4 ∨ mon = 6 ∨ mon = 9 ∨ mon = 11 then 30
  else 31

theorem daysInYear_pos (year : ℤ) : 0 < daysInYear year := by
  unfold daysInYear
  split_ifs <;> decide

theorem isLeap_iff (year : ℤ) :
    isLeap year = true ↔ year % 4 = 0 ∧ (year % 100 ≠ 0 ∨ year % 400 = 0) := by
  simp only [isLeap, Bool.and_eq_true, Bool.or_eq_true, decide_eq_true_eq]

theorem daysBeforeYear_succ (year : ℤ) :
    daysBeforeYear year + daysInYear year = daysBeforeYear (year + 1) := by
  have hleap := isLeap_iff year
  simp only [daysBeforeYear, daysInYear]
  split_ifs with h
  · have hdiv := hleap.1 h
    omega
  · have hdiv := mt hleap.2 h
    omega

theorem daysBeforeMonth_succ (leap : Bool) {mon : ℤ} (h1 : 1 ≤ mon) (h12 : mon < 12) :
    daysBeforeMonth leap (mon - 1) + daysInMonth leap mon = daysBeforeMonth leap (mon + 1 - 1) := by
  interval_cases mon <;> cases leap <;> rfl

theorem daysInMonth_pos (leap : Bool) (mon : ℤ) : 0 < daysInMonth leap mon := by
  unfold daysInMonth
  split_ifs <;> decide

theorem separated_years (a b : ℤ) : Separated a b daysBeforeYear daysInYear :=
  separated_of_succ (fun year _ _ => (daysInYear_pos year).le)
    fun year _ _ => (daysBeforeYear_succ year).le

theorem separated_months (leap : Bool) :
    Separated 1 12 (fun mon => daysBeforeMonth leap (mon - 1)) (daysInMonth leap) :=
  separated_of_succ (fun mon _ _ => (daysInMonth_pos leap mon).le)
    fun _ h1 h12 => (daysBeforeMonth_succ leap h1 h12).le

/-- A month lies within its year. -/
theorem daysBeforeMonth_le (year : ℤ) {mon : ℤ} (h1 : 1 ≤ mon) (h12 : mon ≤ 12) :
    0 ≤ daysBeforeMonth (isLeap year) (mon - 1) ∧
      daysBeforeMonth (isLeap year) (mon - 1) + daysInMonth (isLeap year) mon ≤
        daysInYear year := by
  unfold daysInYear
  generalize isLeap year = leap
  interval_cases mon <;> cases leap <;> decide

/-! ### Times -/

/-- The fields of a data header that make its time. -/
structure CalendarTime where
  /-- The year. -/
  year : ℤ
  /-- The month, 1 to 12. -/
  mon : ℤ
  /-- The day of the month, from 1. -/
  dom : ℤ
  /-- The hour. -/
  hour : ℤ
  /-- The minute. -/
  min : ℤ
  /-- The second. -/
  sec : ℤ
  /-- The millisecond. -/
  msec : ℤ
  deriving DecidableEq

namespace CalendarTime

/-- The fields, the most significant one first. -/
def fields (t : CalendarTime) : List ℤ := [t.year, t.mon, t.dom, t.hour, t.min, t.sec, t.msec]

/-- The fields are those of a time of the calendar. -/
structure Valid (t : CalendarTime) : Prop where
  year : 1970 ≤ t.year ∧ t.year ≤ 9999
  mon : 1 ≤ t.mon ∧ t.mon ≤ 12
  dom : 1 ≤ t.dom ∧ t.dom ≤ daysInMonth (isLeap t.year) t.mon
  hour : 0 ≤ t.hour ∧ t.hour ≤ 23
  min : 0 ≤ t.min ∧ t.min ≤ 59
  sec : 0 ≤ t.sec ∧ t.sec ≤ 59
  msec : 0 ≤ t.msec ∧ t.msec ≤ 999

/-- The fields in the terms of the C library. -/
def tm (t : CalendarTime) : Tm := ⟨t.year - 1900, t.mon - 1, t.dom, t.hour, t.min, t.sec⟩

/-- The milliseconds since the start of 1970. -/
def millis (t : CalendarTime) : ℤ := 1000 * t.tm.seconds + t.msec

/-- The milliseconds since the start of the minute. -/
def ofMinute (t : CalendarTime) : ℤ := 1000 * t.sec + 0 + t.msec

/-- The milliseconds since the start of the hour. -/
def ofHour (t : CalendarTime) : ℤ := 60000 * t.min + 0 + t.ofMinute

/-- The milliseconds since the start of the day. -/
def ofDay (t : CalendarTime) : ℤ := 3600000 * t.hour + 0 + t.ofHour

/-- The milliseconds since the start of the month. -/
def ofMonth (t : CalendarTime) : ℤ := 86400000 * t.dom + -86400000 + t.ofDay

/-- The milliseconds since the start of the year. -/
def ofYear (t : CalendarTime) : ℤ :=
  86400000 * daysBeforeMonth (isLeap t.year) (t.mon - 1) + t.ofMonth

variable {t a b : CalendarTime}

theorem millis_eq (h : t.Valid) : t.millis = 86400000 * daysBeforeYear t.year + t.ofYear := by
  have hmon := h.mon
  have hdiv : (t.mon - 1) / 12 = 0 := Int.ediv_eq_zero_of_lt (by omega) (by omega)
  have hmod : (t.mon - 1) % 12 = t.mon - 1 := Int.emod_eq_of_lt (by omega) (by omega)
  have hyear : t.year - 1900 + 1900 + 0 = t.year := by omega
  simp only [millis, Tm.seconds, tm, hdiv, hmod, hyear, ofYear, ofMonth, ofDay, ofHour, ofMinute]
  omega

/-! ### Their ranges -/

namespace Valid

theorem msec_range (h : t.Valid) : 0 ≤ t.msec ∧ t.msec < 1000 :=
  ⟨h.msec.1, Int.lt_of_le_of_lt h.msec.2 (by decide)⟩

theorem ofMinute_range (h : t.Valid) : 0 ≤ t.ofMinute ∧ t.ofMinute < 60000 := by
  have hsec := h.sec
  have hmsec := h.msec
  unfold ofMinute
  omega

theorem ofHour_range (h : t.Valid) : 0 ≤ t.ofHour ∧ t.ofHour < 3600000 := by
  have hmin := h.min
  have hrest := h.ofMinute_range
  unfold ofHour
  omega

theorem ofDay_range (h : t.Valid) : 0 ≤ t.ofDay ∧ t.ofDay < 86400000 := by
  have hhour := h.hour
  have hrest := h.ofHour_range
  unfold ofDay
  omega

theorem ofMonth_range (h : t.Valid) :
    0 ≤ t.ofMonth ∧ t.ofMonth < 86400000 * daysInMonth (isLeap t.year) t.mon := by
  have hdom := h.dom
  have hrest := h.ofDay_range
  unfold ofMonth
  omega

theorem ofYear_range (h : t.Valid) :
    0 ≤ t.ofYear ∧ t.ofYear < 86400000 * daysInYear t.year := by
  have hmon := daysBeforeMonth_le t.year h.mon.1 h.mon.2
  have hrest := h.ofMonth_range
  unfold ofYear
  omega

end Valid

/-! ### Their order -/

theorem msec_lt_iff : a.msec < b.msec ↔ [a.msec] < [b.msec] := by
  simp [List.cons_lt_cons_iff]

theorem ofMinute_lt_iff (ha : a.Valid) (hb : b.Valid) :
    a.ofMinute < b.ofMinute ↔ [a.sec, a.msec] < [b.sec, b.msec] :=
  (separated_digits (by decide) 0 59 0).cons_lt_cons_iff ha.sec hb.sec ha.msec_range
    hb.msec_range fun _ => msec_lt_iff

theorem ofHour_lt_iff (ha : a.Valid) (hb : b.Valid) :
    a.ofHour < b.ofHour ↔ [a.min, a.sec, a.msec] < [b.min, b.sec, b.msec] :=
  (separated_digits (by decide) 0 59 0).cons_lt_cons_iff ha.min hb.min ha.ofMinute_range
    hb.ofMinute_range fun _ => ofMinute_lt_iff ha hb

theorem ofDay_lt_iff (ha : a.Valid) (hb : b.Valid) :
    a.ofDay < b.ofDay ↔ [a.hour, a.min, a.sec, a.msec] < [b.hour, b.min, b.sec, b.msec] :=
  (separated_digits (by decide) 0 23 0).cons_lt_cons_iff ha.hour hb.hour ha.ofHour_range
    hb.ofHour_range fun _ => ofHour_lt_iff ha hb

theorem daysInMonth_le (leap : Bool) (mon : ℤ) : daysInMonth leap mon ≤ 31 := by
  unfold daysInMonth
  split_ifs <;> decide

theorem ofMonth_lt_iff (ha : a.Valid) (hb : b.Valid) : a.ofMonth < b.ofMonth ↔
    [a.dom, a.hour, a.min, a.sec, a.msec] < [b.dom, b.hour, b.min, b.sec, b.msec] :=
  (separated_digits (by decide) 1 31 (-86400000)).cons_lt_cons_iff
    ⟨ha.dom.1, ha.dom.2.trans (daysInMonth_le _ _)⟩ ⟨hb.dom.1, hb.dom.2.trans (daysInMonth_le _ _)⟩
    ha.ofDay_range hb.ofDay_range fun _ => ofDay_lt_iff ha hb

theorem ofYear_lt_iff (ha : a.Valid) (hb : b.Valid) (hyear : a.year = b.year) :
    a.ofYear < b.ofYear ↔
      [a.mon, a.dom, a.hour, a.min, a.sec, a.msec] <
        [b.mon, b.dom, b.hour, b.min, b.sec, b.msec] := by
  have hra := ha.ofMonth_range
  have hrb := hb.ofMonth_range
  unfold ofYear
  rw [hyear] at hra ⊢
  exact ((separated_months (isLeap b.year)).mul (by decide)).cons_lt_cons_iff ha.mon hb.mon
    hra hrb fun _ => ofMonth_lt_iff ha hb

/-- **The milliseconds are in the order of the fields.** -/
theorem millis_lt_iff (ha : a.Valid) (hb : b.Valid) :
    a.millis < b.millis ↔ a.fields < b.fields := by
  rw [millis_eq ha, millis_eq hb]
  exact ((separated_years 1970 9999).mul (by decide)).cons_lt_cons_iff ha.year hb.year
    ha.ofYear_range hb.ofYear_range fun hyear => ofYear_lt_iff ha hb hyear

/-! ### What a `time_t` holds -/

/-- The time is before the second that a 32-bit `time_t` cannot hold. -/
def InTimeT (t : CalendarTime) : Prop := t.fields < [2038, 1, 19, 3, 14, 8, 0]

instance (t : CalendarTime) : Decidable t.InTimeT :=
  inferInstanceAs (Decidable (t.fields < [2038, 1, 19, 3, 14, 8, 0]))

theorem inTimeT_iff (h : t.Valid) : t.InTimeT ↔ t.millis < 2147483648000 := by
  let late : CalendarTime := ⟨2038, 1, 19, 3, 14, 8, 0⟩
  have hlate : late.Valid := by
    constructor <;> decide
  exact (millis_lt_iff h hlate).symm

theorem millis_nonneg (h : t.Valid) : 0 ≤ t.millis := by
  have hyear : 0 ≤ daysBeforeYear t.year := by
    rcases eq_or_lt_of_le h.year.1 with heq | hlt
    · rw [← heq]
      decide
    · have hpos := daysInYear_pos 1970
      have hsep := separated_years 1970 9999 1970 t.year le_rfl hlt h.year.2
      have hzero : daysBeforeYear 1970 = 0 := by decide
      omega
  rw [millis_eq h]
  have hrange := h.ofYear_range
  omega

/-- What the time is decoded to, in milliseconds. -/
def decoded (t : CalendarTime) : ℤ := if t.InTimeT then t.millis else t.msec - 1000

/-- `timegm` reports an error for a time that a `time_t` cannot hold. -/
theorem timegm_tm (h : t.Valid) : 1000 * timegm t.tm + t.msec = t.decoded := by
  have hnonneg := millis_nonneg h
  have hin := inTimeT_iff h
  have hmsec := h.msec
  unfold millis at hnonneg hin
  unfold timegm decoded millis
  by_cases ht : t.InTimeT
  · have hlt := hin.1 ht
    rw [if_pos ht, if_pos (by omega)]
  · have hge := mt hin.2 ht
    rw [if_neg ht, if_neg (by omega)]
    omega

end CalendarTime

/-! ### Headers -/

/-- The fields of the data header at offset `pos`. -/
def headerTime (dataHdr : Bfr) (pos : ℕ) : CalendarTime where
  year := dataHdr.i16 (pos + DATAHDR_POS_YEAR_REL)
  mon := dataHdr.i16 (pos + DATAHDR_POS_MON_REL)
  dom := dataHdr.i16 (pos + DATAHDR_POS_DOM_REL)
  hour := dataHdr.i16 (pos + DATAHDR_POS_HOUR_REL)
  min := dataHdr.i16 (pos + DATAHDR_POS_MIN_REL)
  sec := dataHdr.i16 (pos + DATAHDR_POS_SEC_REL)
  msec := dataHdr.i16 (pos + DATAHDR_POS_MSEC_REL)

variable {dataHdr dataHdr' : Bfr} {pos pos' : ℕ}

theorem decodePktTime_eq (h : (headerTime dataHdr pos).Valid) :
    decodePktTime dataHdr pos = (headerTime dataHdr pos).decoded / 1000 := by
  rw [← CalendarTime.timegm_tm h]
  show ((timegm (headerTime dataHdr pos).tm : ℤ) : ℚ) + (headerTime dataHdr pos).msec / 1000 = _
  push_cast
  ring

/-- **Decoded times are in the order of the headers** exactly for two headers of times that a
`time_t` can hold, and for two of times that it cannot hold whose milliseconds are in this order. -/
theorem decodePktTime_lt_iff (h : (headerTime dataHdr pos).Valid)
    (h' : (headerTime dataHdr' pos').Valid) :
    (decodePktTime dataHdr pos < decodePktTime dataHdr' pos' ↔
      (headerTime dataHdr pos).fields < (headerTime dataHdr' pos').fields) ↔
    (headerTime dataHdr pos).InTimeT ∧ (headerTime dataHdr' pos').InTimeT ∨
      ¬ (headerTime dataHdr pos).InTimeT ∧ ¬ (headerTime dataHdr' pos').InTimeT ∧
        ((headerTime dataHdr pos).msec < (headerTime dataHdr' pos').msec ↔
          (headerTime dataHdr pos).fields < (headerTime dataHdr' pos').fields) := by
  rw [decodePktTime_eq h, decodePktTime_eq h', div_lt_div_iff_of_pos_right (by norm_num),
    Int.cast_lt, ← CalendarTime.millis_lt_iff h h']
  generalize headerTime dataHdr pos = a at h ⊢
  generalize headerTime dataHdr' pos' = b at h' ⊢
  have hina := CalendarTime.inTimeT_iff h
  have hinb := CalendarTime.inTimeT_iff h'
  have hnonneg := CalendarTime.millis_nonneg h
  have hnonneg' := CalendarTime.millis_nonneg h'
  have hmsec := h.msec
  have hmsec' := h'.msec
  unfold CalendarTime.decoded
  by_cases ha : a.InTimeT <;> by_cases hb : b.InTimeT
  · simp [ha, hb]
  · -- the later one is decoded to a time before 1970
    have hlt := hina.1 ha
    have hge := mt hinb.2 hb
    refine iff_of_false ?_ (by simp [ha, hb])
    rw [if_pos ha, if_neg hb]
    intro hiff
    have hdecoded := hiff.2 (by omega)
    omega
  · have hge := mt hina.2 ha
    have hlt := hinb.1 hb
    refine iff_of_false ?_ (by simp [ha, hb])
    rw [if_neg ha, if_pos hb]
    intro hiff
    have hmillis := hiff.1 (by omega)
    omega
  · simp [ha, hb]

/-- A data header of the given fields. -/
def headerOf (t : CalendarTime) : Bfr :=
  let bytes := [t.year, t.mon, 0, t.dom, t.hour, t.min, t.sec, t.msec].flatMap fun field =>
    [UInt8.ofNat field.toNat, UInt8.ofNat (field.toNat / 256)]
  fun pos => bytes.getD pos 0

/-- Two packets, half a second apart over the end of a year. -/
theorem decodePktTime_lt_new_year :
    let before : CalendarTime := ⟨2024, 12, 31, 23, 59, 59, 800⟩
    let after : CalendarTime := ⟨2025, 1, 1, 0, 0, 0, 300⟩
    decodePktTime (headerOf before) 0 < decodePktTime (headerOf after) 0 ↔
      (headerTime (headerOf before) 0).fields < (headerTime (headerOf after) 0).fields := by
  intro before after
  have hbefore : (headerTime (headerOf before) 0).Valid := by
    constructor <;> decide
  have hafter : (headerTime (headerOf after) 0).Valid := by
    constructor <;> decide
  exact (decodePktTime_lt_iff hbefore hafter).2 (.inl (by decide))

/-- A packet of the year 2040 is decoded to a time before one of the start of 1970. -/
theorem decodePktTime_after_2038 :
    let early : CalendarTime := ⟨1970, 1, 1, 0, 0, 0, 0⟩
    let late : CalendarTime := ⟨2040, 6, 15, 12, 0, 0, 0⟩
    (headerTime (headerOf early) 0).Valid ∧ (headerTime (headerOf late) 0).Valid ∧
      (headerTime (headerOf early) 0).fields < (headerTime (headerOf late) 0).fields ∧
      ¬ decodePktTime (headerOf early) 0 < decodePktTime (headerOf late) 0 := by
  intro early late
  have hearly : (headerTime (headerOf early) 0).Valid := by
    constructor <;> decide
  have hlate : (headerTime (headerOf late) 0).Valid := by
    constructor <;> decide
  exact ⟨hearly, hlate, by decide, by decide +kernel⟩

end SdrProxy
