import SdrProxy.DataBfr
import SdrProxy.RingSearch
import SdrProxy.Time

/-!
# The receive path of the client thread

The functions of `client.c` between the socket and the data ring: `client_rcv_to_ring`,
`get_chan_info`, `get_adc_data`, `add_to_data_ring` and `check_data`.

* An `Except` result is the end of the program by `fail`, with its text.
* `rcv_bfr` of `get_adc_data` is an uninitialised local array; what it held before is the argument
  `junk`.
* The body of the loop of `check_data` is `checkDataIter`.  It reports what it handed on as
  `RcvEvent`s, the observable effects of the path.
* `checkData` runs the body at most once for every byte on the ring and once more;
  `checkDataLoop_done` says that this is enough for the loop to end by its own condition.
-/

namespace SdrProxy

open Stdio

/-- What a `recv` on a socket can report. -/
inductive RecvResult where
  /-- `EAGAIN` or `EWOULDBLOCK`. -/
  | again
  /-- Any other error. -/
  | error
  /-- The bytes that have arrived; none if the peer closed the socket. -/
  | bytes (l : List UInt8)
  deriving DecidableEq, Repr

/-- `client_rcv_to_ring`: -2 closed, -1 error, 0 nothing yet, else the number of bytes stored. -/
def clientRcvToRing (res : RecvResult) (rcvRing : RingSet) : ℤ × RingSet :=
  let freeBytes := min BFRSIZE rcvRing.bytesFree
  if freeBytes = 0 then (0, rcvRing)
  else
    match res with
    | .again => (0, rcvRing)
    | .error => (-1, rcvRing)
    | .bytes l =>
      let rcvBfr := l.take freeBytes
      if 0 < rcvBfr.length then (rcvBfr.length, (rcvRing.store rcvBfr).2) else (-2, rcvRing)

/-- What the receive path hands on. -/
inductive RcvEvent where
  /-- `get_chan_info` accepted a channel info. -/
  | accepted (c : ChannelInfo)
  /-- `RING_STORE` was called with a packet and returned `ret`. -/
  | stored (element : PacketInfo) (pkt : List UInt8) (ret : ℤ)
  deriving DecidableEq

/-- What the receive path works on. -/
structure RcvPath where
  /-- `rcv_ring`. -/
  ring : RingSet
  /-- `new_chan_info`. -/
  newChanInfo : ChannelInfo
  /-- The data ring. -/
  dataRing : DataRing

/-- Everything before `index` removed from the ring. -/
def skipTo (index : ℤ) (ring : RingSet) : RingSet :=
  if 0 < index then (ring.delete index.toNat).2 else ring

/-- `get_chan_info`: 0 if the text at `index` was taken off the ring and accepted, else -1. -/
def getChanInfo (index : ℤ) (p : RcvPath) : ℤ × RcvPath × List RcvEvent :=
  let ring := skipTo index p.ring
  if CHANINFOLEN ≤ ring.bytesStored then
    match ring.retr CHANINFOLEN with
    | none => (-1, { p with ring := ring }, [])
    | some (rcvBfr, ring) =>
      match sscanf CHANINFOSCANFMT rcvBfr with
      | [sps, chans, type] =>
        if checkChannelInfo sps chans type = 0 then
          let c : ChannelInfo := ⟨sps.toNat, chans.toNat, type.toNat⟩
          (0, { p with ring := ring, newChanInfo := c }, [.accepted c])
        else (-1, { p with ring := ring }, [])
      | _ => (-1, { p with ring := ring }, [])
  else (-1, { p with ring := ring }, [])

/-- `add_to_data_ring`. -/
def addToDataRing (packet : Bfr) (pktLen : ℕ) (dataRing : DataRing) :
    Except String (DataRing × List RcvEvent) := do
  let thisPkt : PacketInfo :=
    { packetLen := pktLen
      packetTime := decodePktTime packet PREHDRLEN
      packetId := packet.i32 DATAHDR_POS_PACKETID
      valid := true }
  let (ret, dataRing) ← dataRing.store thisPkt packet
  return (dataRing, [.stored thisPkt (packet.read 0 pktLen) ret])

/-- `strcmp` of the buffer with a string finds no difference. -/
def strcmpEq (b : Bfr) (s : List UInt8) : Bool := b.read 0 s.length = s && b s.length = 0

/-- The text of the `fail` in `get_adc_data`. -/
def TOKENFAIL : String :=
  "getAdcData: ERROR. Didn't find the ADCTOKEN in buffer loaded from ring " ++
    "when it should have been there\n"

/-- `get_adc_data`: 0 if the packet at `index` was taken off the ring, -1 if it is incomplete. -/
def getAdcData (index : ℤ) (junk : Bfr) (p : RcvPath) :
    Except String (ℤ × RcvPath × List RcvEvent) :=
  let ring := skipTo index p.ring
  if PREHDRLEN < ring.bytesStored then
    let rcvBfr := junk.load 0 ((ring.view PREHDRLEN).getD [])
    -- the test is the wrong way round: no difference from the token is the failure
    if strcmpEq rcvBfr ADCTOKEN then .error TOKENFAIL
    else
      let datalen := rcvBfr.u16 PREHDR_POS_DATALEN
      let type := rcvBfr PREHDR_POS_TYPE
      if PREHDRLEN + datalen ≤ ring.bytesStored then
        match ring.retr (PREHDRLEN + datalen) with
        | none => .ok (-1, { p with ring := ring }, [])
        | some (bytes, ring) =>
          let rcvBfr := rcvBfr.load 0 bytes
          if doCrc rcvBfr PREHDR_POS_DATALEN (datalen + PREHDRLEN - 4 - 1) =
              rcvBfr (PREHDRLEN + datalen - 1) then
            if type = ADC_AD_DATA then do
              let (dataRing, events) ← addToDataRing rcvBfr (PREHDRLEN + datalen) p.dataRing
              return (0, { p with ring := ring, dataRing := dataRing }, events)
            -- other types are texts for the log
            else .ok (0, { p with ring := ring }, [])
          else .ok (0, { p with ring := ring }, [])
      else .ok (-1, { p with ring := ring }, [])
  else .ok (-1, { p with ring := ring }, [])

/-- The body of the loop of `check_data`, and whether the loop goes on. -/
def checkDataIter (inhibitAdc : Bool) (junk : Bfr) (p : RcvPath) :
    Except String (Bool × RcvPath × List RcvEvent) := do
  let chanidx := findChanInfo p.ring
  let adcidx := if inhibitAdc then -1 else searchRing ADCTOKEN p.ring
  if 0 ≤ chanidx ∧ chanidx < adcidx then
    let (rv, p, events) := getChanInfo chanidx p
    return (rv = 0, p, events)
  else if 0 ≤ adcidx then
    let (rv, p, events) ← getAdcData adcidx junk p
    -- get_adc_data never returns -2
    if rv = -2 ∧ 0 ≤ chanidx then
      return (false, { p with ring := (p.ring.delete chanidx.toNat).2 }, events)
    else return (rv = 0, p, events)
  else if 0 ≤ chanidx then
    let (rv, p, events) := getChanInfo chanidx p
    return (rv = 0, p, events)
  else return (false, p, [])

/-- The loop of `check_data`, at most `fuel` times. -/
def checkDataLoop (inhibitAdc : Bool) (junk : ℕ → Bfr) :
    ℕ → RcvPath → Except String (Bool × RcvPath × List RcvEvent)
  | 0, p => .ok (true, p, [])
  | fuel + 1, p => do
    let (again, p, events) ← checkDataIter inhibitAdc (junk fuel) p
    if again then
      let (again, p, events') ← checkDataLoop inhibitAdc junk fuel p
      return (again, p, events ++ events')
    else return (false, p, events)

/-- What `check_data` does after its loop: an inhibited pass empties the ring unless it holds no
more than the length of a channel token. -/
def purge (inhibitAdc : Bool) (ring : RingSet) : RingSet :=
  if inhibitAdc ∧ CHANTOKEN.length < ring.bytesStored then (ring.delete ring.bytesStored).2
  else ring

/-- `check_data`. -/
def checkData (inhibitAdc : Bool) (junk : ℕ → Bfr) (p : RcvPath) :
    Except String (RcvPath × List RcvEvent) := do
  let (_, p, events) ← checkDataLoop inhibitAdc junk (p.ring.bytesStored + 1) p
  return ({ p with ring := purge inhibitAdc p.ring }, events)

end SdrProxy
