import Mathlib.Data.Rat.Defs
import Mathlib.Algebra.Order.Field.Rat

/-!
# Constants and records of the proxy

The part of `sdrproxy.h` that the modelled functions use, under the names of the header.

* C buffers reached through a pointer are functions from offsets to bytes (`Bfr`): reading past
  what was written yields whatever the memory held, which is what a reused stack buffer does.
  `Bfr.load` is `memcpy` into the buffer, `Bfr.read` is `memcpy` out of it.
* `PacketTime` (`PACKETTIME`, a C `double` holding Unix seconds) is an exact rational.
-/

namespace SdrProxy

/-! ### Constants -/

/-- The token in front of every ADC packet. -/
def ADCTOKEN : List UInt8 := [0xAA, 0x55, 0x88, 0x44]

/-- The token in front of a channel info text, `"SPS: "`. -/
def CHANTOKEN : List UInt8 := [0x53, 0x50, 0x53, 0x3A, 0x20]

/-- Length of a channel info text. -/
def CHANINFOLEN : ℕ := 25

/-- What a client sends to start the transmission, `"SEND AD"`. -/
def CHANREQUEST : List UInt8 := [0x53, 0x45, 0x4E, 0x44, 0x20, 0x41, 0x44]

/-- `strlen(CHANREQUEST)`. -/
def CHANREQUESTLEN : ℕ := 7

/-- The largest number of channels of an A/D board. -/
def MAXCHANNELS : ℤ := 8

/-- Bytes per sample the server allows for in its send buffers. -/
def ADCDATASIZE : ℕ := 4

/-- Length of the preheader of an ADC packet. -/
def PREHDRLEN : ℕ := 8

/-- Length of the data header of an ADC packet. -/
def DATAHDRLEN : ℕ := 22

/-- Length of the check byte that ends an ADC packet. -/
def CRCLEN : ℕ := 1

/-- Bytes of a sample of the largest packet. -/
def VMBYTES : ℕ := 4

/-- Samples of the largest packet: 200 per second on 8 channels. -/
def MAXDATAPERSEC : ℕ := 1600

/-- Length of the largest packet. -/
def MAXPACKETSIZE : ℕ := MAXDATAPERSEC * VMBYTES + PREHDRLEN + DATAHDRLEN + CRCLEN

/-- Bytes the server receives at most from a remote client. -/
def SERVERRCVBFRSIZE : ℕ := 300

/-- Bytes the receive and send rings of the client thread can store. -/
def BFRSIZE : ℕ := 5000

/-- How many clients can be connected at the same time. -/
def MAXCLIENTCONNECTIONS : ℕ := 10

/-- How many ports the server listens on. -/
def MAX_OUTGOING_PORTS : ℕ := 2

/-- Port number of the first listening socket. -/
def SERVERPORTNO : ℕ := 16065

/-- Number of packets the data ring can hold. -/
def DATASIZE : ℕ := 14400

/-- The fail timer after bytes were received from the remote server. -/
def POSTCONNECTIONTIMOUT : ℤ := 15000

/-- What one receive without bytes takes off the fail timer. -/
def CLIENTCYCLETIMER : ℤ := 100

/-- Cycles the server waits for the first request of a client. -/
def SRVR_IDLE_TIMEOUT : ℤ := 150

/-- How many minutes a reconnecting client is set back. -/
def MINUTES_TO_BACKUP : ℚ := 1

/-- How close to a minute boundary a reconnecting client is set back one more minute. -/
def SECONDS_OVERLAP : ℚ := 4

/-- The preheader type of A/D data; 0, 1 and 2 are messages. -/
def ADC_AD_DATA : UInt8 := 3

/-! ### Field positions, relative to the start of a packet -/

/-- Position of the length field. -/
def PREHDR_POS_DATALEN : ℕ := 4

/-- Position of the packet type. -/
def PREHDR_POS_TYPE : ℕ := 6

/-- Position of the packet id. -/
def DATAHDR_POS_PACKETID : ℕ := 24

/-! ### Field positions, relative to the start of the data header -/

/-- Position of the year. -/
def DATAHDR_POS_YEAR_REL : ℕ := 0

/-- Position of the month, 1 to 12. -/
def DATAHDR_POS_MON_REL : ℕ := 2

/-- Position of the day of the month. -/
def DATAHDR_POS_DOM_REL : ℕ := 6

/-- Position of the hour. -/
def DATAHDR_POS_HOUR_REL : ℕ := 8

/-- Position of the minute. -/
def DATAHDR_POS_MIN_REL : ℕ := 10

/-- Position of the second. -/
def DATAHDR_POS_SEC_REL : ℕ := 12

/-- Position of the millisecond. -/
def DATAHDR_POS_MSEC_REL : ℕ := 14

/-! ### Buffers -/

/-- A buffer reached through a `char *`: the byte at each offset. -/
abbrev Bfr := ℕ → UInt8

namespace Bfr

/-- The `n` bytes of `b` from offset `pos` on. -/
def read (b : Bfr) (pos n : ℕ) : List UInt8 := (List.range n).map fun i => b (pos + i)

/-- `b` after `l` was copied to offset `pos`. -/
def load (b : Bfr) (pos : ℕ) (l : List UInt8) : Bfr :=
  fun i => if h : pos ≤ i ∧ i - pos < l.length then l[i - pos] else b i

/-- The little-endian `unsigned short` at `pos`. -/
def u16 (b : Bfr) (pos : ℕ) : ℕ := (b pos).toNat + 256 * (b (pos + 1)).toNat

/-- The little-endian `short` at `pos`. -/
def i16 (b : Bfr) (pos : ℕ) : ℤ := if b.u16 pos < 32768 then b.u16 pos else b.u16 pos - 65536

/-- The little-endian 32-bit `long` at `pos`. -/
def i32 (b : Bfr) (pos : ℕ) : ℤ :=
  let v := b.u16 pos + 65536 * b.u16 (pos + 2)
  if v < 2147483648 then v else v - 4294967296

@[simp] theorem length_read (b : Bfr) (pos n : ℕ) : (b.read pos n).length = n := by simp [read]

@[simp] theorem getElem_read (b : Bfr) (pos n i : ℕ) (h : i < (b.read pos n).length) :
    (b.read pos n)[i] = b (pos + i) := by
  simp [read]

theorem load_of_lt {b : Bfr} {pos i : ℕ} {l : List UInt8} (h : i < pos) : b.load pos l i = b i := by
  have hn : ¬ (pos ≤ i ∧ i - pos < l.length) := by omega
  simp only [load, hn, ↓reduceDIte]

theorem load_of_ge {b : Bfr} {pos i : ℕ} {l : List UInt8} (h : pos + l.length ≤ i) :
    b.load pos l i = b i := by
  have hn : ¬ (pos ≤ i ∧ i - pos < l.length) := by omega
  simp only [load, hn, ↓reduceDIte]

theorem load_add {b : Bfr} {pos i : ℕ} {l : List UInt8} (h : i < l.length) :
    b.load pos l (pos + i) = l[i] := by
  simp [load, h]

/-- What was copied to a position is read back from it. -/
theorem read_load (b : Bfr) (pos : ℕ) (l : List UInt8) :
    (b.load pos l).read pos l.length = l := by
  apply List.ext_getElem
  · simp
  · intro i h₁ h₂
    rw [getElem_read, load_add h₂]

end Bfr

/-! ### Records -/

/-- `struct channelinfo`.  The fields are `int` in the source; only zeros and values that passed
`check_channel_info` are ever stored in one, so they are natural numbers here. -/
structure ChannelInfo where
  /-- Samples per second. -/
  sps : ℕ
  /-- Number of channels. -/
  numChannels : ℕ
  /-- Board type; 4 is the Volksmeter with four-byte samples. -/
  type : ℕ
  deriving DecidableEq, Repr

/-- The channel info of zeros that `memset` leaves. -/
def ChannelInfo.zero : ChannelInfo := ⟨0, 0, 0⟩

/-- The fields the threads compare to detect a change. -/
def ChannelInfo.Same (c d : ChannelInfo) : Prop := c.sps = d.sps ∧ c.numChannels = d.numChannels

instance (c d : ChannelInfo) : Decidable (c.Same d) :=
  inferInstanceAs (Decidable (_ ∧ _))

/-- Unix time of a packet in seconds. -/
abbrev PacketTime := ℚ

/-- `struct packetinfo`. -/
structure PacketInfo where
  /-- Length of the packet in bytes, with its preheader and check byte. -/
  packetLen : ℕ
  /-- Unix time of the packet. -/
  packetTime : PacketTime
  /-- The packet id field of the data header. -/
  packetId : ℤ
  /-- There is data here, not filler. -/
  valid : Bool
  deriving DecidableEq, Repr

/-! ### Results -/

/-- A sequence of steps that may fail has a result if both parts have one. -/
theorem bind_eq_ok {ε α β : Type} {x : Except ε α} {f : α → Except ε β} {b : β} :
    (x >>= f) = .ok b ↔ ∃ a, x = .ok a ∧ f a = .ok b := by
  cases x with
  | error e =>
    constructor
    · intro h
      cases h
    · rintro ⟨a, ha, -⟩
      cases ha
  | ok a =>
    constructor
    · intro h
      exact ⟨a, rfl, h⟩
    · rintro ⟨a', ha, h⟩
      cases ha
      exact h

theorem bind_fails_iff {ε α β : Type} {x : Except ε α} {f : α → Except ε β} :
    (∃ e, (x >>= f) = .error e) ↔
      (∃ e, x = .error e) ∨ ∃ a, x = .ok a ∧ ∃ e, f a = .error e := by
  cases x with
  | error e => exact iff_of_true ⟨e, rfl⟩ (.inl ⟨e, rfl⟩)
  | ok a =>
    constructor
    · intro h
      exact .inr ⟨a, rfl, h⟩
    · rintro (⟨e, he⟩ | ⟨a', ha, h⟩)
      · cases he
      · cases ha
        exact h

theorem map_eq_ok {ε α β : Type} {x : Except ε α} {f : α → β} {b : β} :
    x.map f = .ok b ↔ ∃ a, x = .ok a ∧ f a = b := by
  cases x with
  | error e =>
    constructor
    · intro h
      cases h
    · rintro ⟨a, ha, -⟩
      cases ha
  | ok a =>
    constructor
    · intro h
      exact ⟨a, rfl, Except.ok.inj h⟩
    · rintro ⟨a', ha, rfl⟩
      cases ha
      rfl

end SdrProxy
