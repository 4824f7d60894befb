import SdrProxy.Basic

/-!
# Packet times

`get_packet_time` and `decode_pkt_time` of `time.c`, with the C library's `timegm`: the seconds
from the start of 1970 in the Gregorian calendar, out-of-range months carried into the year and
other fields counted as they stand, and -1 where the count does not fit the 32-bit `time_t` of
the build.
-/

namespace SdrProxy

/-! ### The calendar -/

/-- The leap years of the Gregorian calendar. -/
def isLeap (year : ℤ) : Bool := year % 4 = 0 && (year % 100 ≠ 0 || year % 400 = 0)

/-- Days from the start of 1970 to the start of `year`. -/
def daysBeforeYear (year : ℤ) : ℤ :=
  let y := year - 1
  365 * (year - 1970) + (y / 4 - 492) - (y / 100 - 19) + (y / 400 - 4)

/-- Days from the start of a year to the start of its month `mon`, 0 to 11. -/
def daysBeforeMonth (leap : Bool) (mon : ℤ) : ℤ :=
  let days := [0, 31, 59, 90, 120, 151, 181, 212, 243, 273, 304, 334].getD mon.toNat 0
  if leap && 2 ≤ mon then days + 1 else days

/-- The fields of `struct tm` that `timegm` reads. -/
structure Tm where
  /-- Years since 1900. -/
  tmYear : ℤ
  /-- Month, 0 to 11. -/
  tmMon : ℤ
  /-- Day of the month, from 1. -/
  tmMday : ℤ
  /-- Hour. -/
  tmHour : ℤ
  /-- Minute. -/
  tmMin : ℤ
  /-- Second. -/
  tmSec : ℤ
  deriving DecidableEq, Repr

/-- The second count of a broken-down time, without a bound. -/
def Tm.seconds (tm : Tm) : ℤ :=
  let year := tm.tmYear + 1900 + tm.tmMon / 12
  let days := daysBeforeYear year + daysBeforeMonth (isLeap year) (tm.tmMon % 12) + tm.tmMday - 1
  86400 * days + 3600 * tm.tmHour + 60 * tm.tmMin + tm.tmSec

/-- `timegm` with a 32-bit `time_t`. -/
def timegm (tm : Tm) : ℤ :=
  if -2147483648 ≤ tm.seconds ∧ tm.seconds ≤ 2147483647 then tm.seconds else -1

/-! ### Times of packets -/

/-- `get_packet_time`: the Unix time in the data header at offset `pos`, without milliseconds. -/
def getPacketTime (dataHdr : Bfr) (pos : ℕ) : ℤ :=
  timegm
    { tmYear := dataHdr.i16 (pos + DATAHDR_POS_YEAR_REL) - 1900
      tmMon := dataHdr.i16 (pos + DATAHDR_POS_MON_REL) - 1
      tmMday := dataHdr.i16 (pos + DATAHDR_POS_DOM_REL)
      tmHour := dataHdr.i16 (pos + DATAHDR_POS_HOUR_REL)
      tmMin := dataHdr.i16 (pos + DATAHDR_POS_MIN_REL)
      tmSec := dataHdr.i16 (pos + DATAHDR_POS_SEC_REL) }

/-- `decode_pkt_time`: the time in the data header at offset `pos`. -/
def decodePktTime (dataHdr : Bfr) (pos : ℕ) : PacketTime :=
  getPacketTime dataHdr pos + dataHdr.i16 (pos + DATAHDR_POS_MSEC_REL) / 1000

end SdrProxy
