import SdrProxy.Cache
import SdrProxy.Lib.Machine
import SdrProxy.Service

/-!
# What is delivered

`put_adc_data` on the cache: the packets that are placed on send rings through one history record,
while packets are stored.

* `deliveryMachine` : stores, and calls of `put_adc_data` that use one history record, in any order;
  the connections that make the calls may differ and change between the calls;
* `Delivered` : what a step of it can do (`Delivery.Ok.step_cases`);
* `delivered_in_order` : no packet is delivered twice or out of order, and none is passed over.

Times are whole milliseconds here (`Millis`), as `decode_pkt_time` computes them.
-/

namespace SdrProxy

/-! ### What is found -/

namespace DataRing

variable {r : DataRing} {time : PacketTime} {element : PacketInfo} {pkt : List UInt8}

/-- What `RING_RETR` hands back comes after the time asked for, and before all other entries from a
millisecond after that time on. -/
theorem retr_first (hok : r.Ok) (h : (r.retr time).2 = some (element, pkt)) :
    time + 1 / 1000 ≤ element.packetTime ∧
      ∀ e ∈ r.entries, time + 1 / 1000 ≤ e.1 → element.packetTime ≤ e.1 := by
  obtain ⟨hle, pre, post, hsplit, hpre⟩ := List.find?_eq_some_iff_append.1 (find?_of_retr hok h)
  have hinc := hok.increasing
  rw [hsplit] at hinc
  refine ⟨by simpa using hle, ?_⟩
  intro e he hreach
  rw [hsplit, List.mem_append, List.mem_cons] at he
  rcases he with he | rfl | he
  · exact absurd hreach (by simpa using hpre e he)
  · exact le_rfl
  · exact (List.rel_of_pairwise_cons (List.pairwise_append.1 hinc).2.1 he).le

end DataRing

/-! ### Calls and stores in any order -/

/-- The time is a whole number of milliseconds. -/
def Millis (t : PacketTime) : Prop := ∃ k : ℤ, t = k / 1000

/-- Between a time and the next millisecond there is no other time. -/
theorem Millis.succ_le {s t : PacketTime} (hs : Millis s) (ht : Millis t) (h : s < t) :
    s + 1 / 1000 ≤ t := by
  obtain ⟨j, rfl⟩ := hs
  obtain ⟨k, rfl⟩ := ht
  have hjk : (j : ℚ) < k := by
    rwa [div_lt_div_iff_of_pos_right (by norm_num)] at h
  have hle : (j : ℚ) + 1 ≤ k := by exact_mod_cast hjk
  rw [← add_div]
  exact div_le_div_of_nonneg_right hle (by norm_num)

/-- The packet cache and the history records. -/
structure Delivery where
  /-- The data ring. -/
  dataRing : DataRing
  /-- The history records. -/
  hist : HistHeap

/-- A step: of the client thread, which stores, or of the server thread, which delivers. -/
inductive DeliveryMove where
  /-- `RING_STORE` of the packet `pktImg` with its info. -/
  | store (element : PacketInfo) (pktImg : Bfr) (millis : Millis element.packetTime)
  /-- `put_adc_data` for the connection `conn`, which is in the state `data`. -/
  | put (now : ℤ) (conn : ℕ) (data : ConnectionData)

/-- What came of a call of `put_adc_data`. -/
structure PutReply where
  /-- The result. -/
  ret : ℤ
  /-- The connection after the call. -/
  data : ConnectionData
  /-- What was placed. -/
  placed : List Event

/-- `RING_STORE` calls and `put_adc_data` calls that use the history record `p`. -/
def deliveryMachine (p : ℕ) : Machine Delivery DeliveryMove PutReply where
  step s l := match l with
    | .store element pktImg _ => match s.dataRing.store element pktImg with
      | .ok (_, r) => some ({ s with dataRing := r }, [])
      | .error _ => none
    | .put now conn data =>
      match putAdcData s.dataRing now conn ⟨{ data with history := some p }, s.hist⟩ with
      | .ok (ret, c, es) => some ({ s with hist := c.hist }, [⟨ret, c.data, es⟩])
      | .error _ => none

/-- The time of a packet that was placed. -/
def Event.placedTime : Event → Option PacketTime
  | .packetPlaced _ element _ => some element.packetTime
  | _ => none

/-- The times of the packets that calls have placed. -/
def placedTimes (replies : List PutReply) : List PacketTime :=
  replies.flatMap fun reply => reply.placed.filterMap Event.placedTime

/-- The time of the last packet placed, `t` if there is none. -/
def lastPlaced (t : PacketTime) (reply : PutReply) : PacketTime :=
  (placedTimes [reply]).getLast?.getD t

variable {p : ℕ} {t : PacketTime} {s s' : Delivery} {replies : List PutReply}

/-- The cache is in order, and the record `p` says that the last packet was one of the time `t`. -/
structure Delivery.Ok (p : ℕ) (t : PacketTime) (s : Delivery) : Prop where
  ring : s.dataRing.Ok
  millis : ∀ e ∈ s.dataRing.entries, Millis e.1
  record : ∃ record, s.hist.recs p = some record ∧ record.lastPacketTime = t
  time : Millis t

/-- What a step can do after a packet of the time `t` was the last one placed. -/
inductive Delivered (p : ℕ) (t : PacketTime) (s : Delivery) :
    DeliveryMove → Delivery → List PutReply → Prop
  /-- A store. -/
  | stored (element : PacketInfo) (pktImg : Bfr) (millis : Millis element.packetTime)
      (r : DataRing) : Delivered p t s (.store element pktImg millis) { s with dataRing := r } []
  /-- A call that finds no packet, or no room for it. -/
  | refused (now : ℤ) (conn : ℕ) (data : ConnectionData) : Delivered p t s (.put now conn data) s
      [⟨0, { data with history := some p }, []⟩]
  /-- A call that places the next packet. -/
  | placed (now : ℤ) (conn : ℕ) (data : ConnectionData) (element : PacketInfo) (pkt : List UInt8)
      (ring : RingSet) (hist : HistHeap) :
      ring.contents = data.sendRing.contents ++ pkt → t < element.packetTime →
      (∀ e ∈ s.dataRing.entries, ¬ (t < e.1 ∧ e.1 < element.packetTime)) →
      Delivered p t s (.put now conn data) { s with hist := hist }
        [⟨1, { data with history := some p, sendRing := ring }, [.packetPlaced conn element pkt]⟩]

/-- **What a step can do**: it comes back, and keeps the record up to date. -/
theorem Delivery.Ok.step_cases (h : s.Ok p t) (l : DeliveryMove) : ∃ s' replies,
    (deliveryMachine p).step s l = some (s', replies) ∧ s'.Ok p (replies.foldl lastPlaced t) ∧
      Delivered p t s l s' replies := by
  cases l with
  | store element pktImg millis =>
    obtain ⟨taken, r, hstore, -⟩ := DataRing.store_spec h.ring element pktImg
    obtain ⟨hok, hentries⟩ := DataRing.mem_entries_store h.ring hstore
    refine ⟨{ s with dataRing := r }, [], ?_, ⟨hok, ?_, h.record, h.time⟩, .stored _ _ _ _⟩
    · simp only [deliveryMachine, hstore]
    · intro e he
      rcases hentries e he with ⟨-, rfl⟩ | hold
      · exact millis
      · exact h.millis e hold
  | put now conn data =>
    obtain ⟨record, hrec, rfl⟩ := h.record
    have hderef : s.hist.deref (some p) = .ok record := by
      simp only [HistHeap.deref, Option.bind_some, hrec]
    obtain ⟨rv, c, es, heq, hmove⟩ :=
      putAdcData_spec s.dataRing now conn (c := ⟨{ data with history := some p }, s.hist⟩) hderef
    refine ⟨{ s with hist := c.hist }, [⟨rv, c.data, es⟩], ?_, ?_⟩
    · simp only [deliveryMachine, heq]
    cases hmove with
    | nothing _ => exact ⟨h, .refused now conn data⟩
    | full _ _ _ _ => exact ⟨h, .refused now conn data⟩
    | placed element pkt hretr hfits =>
      have hlen := DataRing.length_of_retr hretr
      obtain ⟨hlate, hfirst⟩ := DataRing.retr_first h.ring hretr
      have hmem := DataRing.mem_entries_retr h.ring hretr
      refine ⟨⟨h.ring, h.millis, ⟨_, Function.update_self _ _ _, rfl⟩, h.millis _ hmem⟩, ?_⟩
      refine .placed now conn data element pkt _ _ (RingSet.contents_store ?_) ?_ ?_
      · rw [hlen]
        exact hfits
      · exact lt_of_lt_of_le (lt_add_of_pos_right _ (by norm_num)) hlate
      · rintro e he ⟨hlt, hbefore⟩
        exact absurd hbefore (not_lt.2 (hfirst e he (h.time.succ_le (h.millis e he) hlt)))

/-! ### Runs -/

/-- A call for a connection in the state `data` goes on in the order of times, when the last packet
placed was one of the time `t`. -/
structure InOrder (t : PacketTime) (s s' : Delivery) (data : ConnectionData) (reply : PutReply) :
    Prop where
  /-- With the result 0 the records and the connection are as they were. -/
  unchanged : reply.ret = 0 → s'.hist = s.hist ∧ reply.data = data ∧ reply.placed = []
  /-- Else the send ring has the next packet behind what it held, and the cache holds none from
  between. -/
  placed : reply.ret ≠ 0 → ∃ conn element pkt, reply.placed = [.packetPlaced conn element pkt] ∧
    reply.data.sendRing.contents = data.sendRing.contents ++ pkt ∧ t < element.packetTime ∧
    ∀ e ∈ s.dataRing.entries, ¬ (t < e.1 ∧ e.1 < element.packetTime)

/-- The times placed so far increase, and the last of them is the time of the record. -/
theorem placedTimes_pairwise {t₀ : PacketTime} {l : DeliveryMove} {before : List PutReply}
    (hle : ∀ x ∈ t₀ :: placedTimes before, x ≤ t)
    (hpair : (t₀ :: placedTimes before).Pairwise (· < ·)) (h : Delivered p t s l s' replies) :
    (∀ x ∈ t₀ :: placedTimes (before ++ replies), x ≤ replies.foldl lastPlaced t) ∧
      (t₀ :: placedTimes (before ++ replies)).Pairwise (· < ·) := by
  cases h with
  | stored element pktImg millis r =>
    rw [List.append_nil]
    exact ⟨hle, hpair⟩
  | refused now conn data =>
    have htimes : placedTimes (before ++ [⟨0, { data with history := some p }, []⟩]) =
        placedTimes before := by
      simp [placedTimes]
    rw [htimes]
    exact ⟨hle, hpair⟩
  | placed now conn data element pkt ring hist hring hlate hgap =>
    have htimes : placedTimes (before ++ [⟨1, { data with history := some p, sendRing := ring },
        [.packetPlaced conn element pkt]⟩]) = placedTimes before ++ [element.packetTime] := by
      simp [placedTimes, Event.placedTime]
    rw [htimes, ← List.cons_append]
    show (∀ x ∈ t₀ :: placedTimes before ++ [element.packetTime], x ≤ element.packetTime) ∧ _
    constructor
    · intro x hx
      rcases List.mem_append.1 hx with hx | hx
      · exact (hle x hx).trans hlate.le
      · exact (List.mem_singleton.1 hx).le
    · refine List.pairwise_append.2 ⟨hpair, List.pairwise_singleton _ _, ?_⟩
      intro x hx y hy
      rw [List.mem_singleton] at hy
      rw [hy]
      exact (hle x hx).trans_lt hlate

/-- **Packets are delivered in order, without gaps.**  Whatever the order of stores and of calls of
`put_adc_data` that use one history record, all calls come back, and the times of the packets that
are placed increase from the time of the record on.  A call passes over no packet that is in the
cache, and one that returns 0 changes nothing. -/
theorem delivered_in_order {p : ℕ} {hist : HistHeap} {record : ConnHistData} (size : ℕ)
    (mem : ℕ → Datastore) (moves : List DeliveryMove) (hrec : hist.recs p = some record)
    (htime : Millis record.lastPacketTime) :
    (∃ s' replies, (deliveryMachine p).run ⟨.alloc size mem, hist⟩ moves = some (s', replies) ∧
      (record.lastPacketTime :: placedTimes replies).Pairwise (· < ·)) ∧
    ((deliveryMachine p).watch lastPlaced).Always (fun sg l replies sg' =>
        ∀ now conn data, l = .put now conn data → ∃ reply, replies = [reply] ∧
          InOrder sg.2 sg.1 sg'.1 { data with history := some p } reply)
      (⟨.alloc size mem, hist⟩, record.lastPacketTime) moves := by
  have hinit : Delivery.Ok p record.lastPacketTime ⟨.alloc size mem, hist⟩ :=
    ⟨DataRing.ok_alloc size mem, by simp, ⟨record, hrec, rfl⟩, htime⟩
  constructor
  · have htotal : ∃ s' replies,
        (deliveryMachine p).run ⟨.alloc size mem, hist⟩ moves = some (s', replies) := by
      refine Machine.run_total (fun s => ∃ t, Delivery.Ok p t s) ⟨_, hinit⟩ ?_ moves
      rintro s l ⟨t, h⟩
      obtain ⟨s', replies, hstep, hok, -⟩ := h.step_cases l
      exact ⟨s', replies, hstep, _, hok⟩
    obtain ⟨s', replies, hrun⟩ := htotal
    refine ⟨s', replies, hrun, ?_⟩
    -- what has been placed so far, next to the time that the record holds
    have hinv := Machine.run_ind (fun s replies =>
      s.Ok p (replies.foldl lastPlaced record.lastPacketTime) ∧
      (∀ x ∈ record.lastPacketTime :: placedTimes replies,
        x ≤ replies.foldl lastPlaced record.lastPacketTime) ∧
      (record.lastPacketTime :: placedTimes replies).Pairwise (· < ·))
      ⟨hinit, by simp [placedTimes], List.pairwise_singleton _ _⟩ ?_ hrun
    · exact hinv.2.2
    · rintro s l s' before replies ⟨h, hle, hpair⟩ hstep
      obtain ⟨s'', replies', hstep', hok, hdel⟩ := h.step_cases l
      rw [hstep] at hstep'
      cases hstep'
      rw [List.foldl_append]
      exact ⟨hok, placedTimes_pairwise hle hpair hdel⟩
  · refine Machine.always_of_inv (fun sg => sg.1.Ok p sg.2) hinit ?_ moves
    rintro ⟨s, t⟩ l ⟨s', t'⟩ replies h hstep
    obtain ⟨hstep, ht'⟩ := Machine.watch_step.1 hstep
    obtain ⟨s'', replies', hstep', hok, hdel⟩ := h.step_cases l
    rw [hstep] at hstep'
    cases hstep'
    obtain rfl : t' = replies.foldl lastPlaced t := ht'
    refine ⟨hok, ?_⟩
    rintro now conn data rfl
    cases hdel with
    | refused =>
      exact ⟨_, rfl, ⟨fun _ => ⟨rfl, rfl, rfl⟩, fun h => absurd rfl h⟩⟩
    | placed now conn data element pkt ring hist' hring hlate hgap =>
      refine ⟨_, rfl, ⟨fun h => absurd h one_ne_zero, fun _ => ?_⟩⟩
      exact ⟨conn, element, pkt, rfl, hring, hlate, hgap⟩

/-- A single record, of a client that has not been sent anything. -/
def newRecord : HistHeap :=
  ⟨fun i => if i = 0 then some ⟨0, 0, [], SERVERPORTNO, none⟩ else none, 1⟩

/-- A connection with an empty send ring of 25 bytes. -/
def newData : ConnectionData :=
  ⟨.SRVR_STATE_SENDADC, some 0, 0, .alloc 0 fun _ => 0, .alloc CHANINFOLEN fun _ => 0⟩

/-- Two packets, the newer one stored and placed first. -/
theorem delivered_in_order_two : ∃ s' replies,
    (deliveryMachine 0).run ⟨.alloc 0 fun _ => ⟨⟨0, 0, 0, true⟩, fun _ => 0⟩, newRecord⟩
      [.store ⟨1, 2, 2, true⟩ (fun _ => 0) ⟨2000, by norm_num⟩, .put 5 0 newData,
        .store ⟨1, 1, 1, true⟩ (fun _ => 0) ⟨1000, by norm_num⟩, .put 5 0 newData] =
      some (s', replies) ∧ (0 :: placedTimes replies).Pairwise (· < ·) :=
  (delivered_in_order 0 _ _ (show newRecord.recs 0 = some ⟨0, 0, [], SERVERPORTNO, none⟩ from rfl)
    ⟨0, by norm_num⟩).1

end SdrProxy
