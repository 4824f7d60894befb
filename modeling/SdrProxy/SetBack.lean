import SdrProxy.Delivery
import SdrProxy.Sessions

/-!
# Where a client that comes back starts

`get_new_connection` for a client with a record: the time that it sets the record back to, and the
packet that `put_adc_data` finds from there.

* `setBack_eq` : the division is one of doubles, so the time is `SECONDS_OVERLAP` earlier, no more,
  and with every further return again (`setBack_iterate`);
* `retr_reaches` : the next packet is no later than any that the set back time does not reach;
* `Resumes` : a start of a minute, a minute before the one of the last packet at the earliest;
* `getNewConnection_resumes_iff` : the record is set to one exactly if `SECONDS_OVERLAP` before the
  last packet is one.
-/

namespace SdrProxy

/-- The quotient is not cut to a whole number of minutes. -/
theorem setBack_eq (time : PacketTime) : ServerThread.setBack time = time - SECONDS_OVERLAP :=
  div_mul_cancel₀ _ (by norm_num [MINUTES_TO_BACKUP])

/-- However often the client comes back without a packet in between. -/
theorem setBack_iterate (n : ℕ) (time : PacketTime) :
    ServerThread.setBack^[n] time = time - n * SECONDS_OVERLAP := by
  induction n with
  | zero => simp
  | succ n ih =>
    rw [Function.iterate_succ_apply', ih, setBack_eq]
    push_cast
    ring

/-- The packet after a time is found, and no later than any packet behind that time. -/
theorem DataRing.retr_reaches {r : DataRing} (hok : r.Ok) {time : PacketTime} {x : DataRing.Entry}
    (hx : x ∈ r.entries) (hle : time + 1 / 1000 ≤ x.1) : ∃ element pkt,
    (r.retr time).2 = some (element, pkt) ∧ time + 1 / 1000 ≤ element.packetTime ∧
      element.packetTime ≤ x.1 := by
  cases h : (r.retr time).2 with
  | none =>
    rw [retr_snd hok, Option.map_eq_none_iff, List.find?_eq_none] at h
    exact absurd (decide_eq_true hle) (h x hx)
  | some found =>
    obtain ⟨element, pkt⟩ := found
    obtain ⟨hreach, hfirst⟩ := retr_first hok h
    exact ⟨element, pkt, rfl, hreach, hfirst x hx hle⟩

/-- A client with a last packet of the time `last` resumes from `time`. -/
structure Resumes (last time : PacketTime) : Prop where
  /-- The start of a minute. -/
  whole : ∃ k : ℤ, time = 60 * k
  /-- Not too far back. -/
  lower : last - 124 ≤ time
  /-- Far enough back. -/
  upper : time ≤ last - SECONDS_OVERLAP

theorem resumes_setBack_iff (last : PacketTime) :
    Resumes last (ServerThread.setBack last) ↔ ∃ k : ℤ, last - SECONDS_OVERLAP = 60 * k := by
  rw [setBack_eq]
  constructor
  · exact Resumes.whole
  · intro hwhole
    refine ⟨hwhole, ?_, le_rfl⟩
    have hle : SECONDS_OVERLAP ≤ 124 := by norm_num [SECONDS_OVERLAP]
    exact sub_le_sub_left hle last

variable {t : ServerThread} {io : ServerIO} {l : List ℕ} {remoteIp : List UInt8} {newConn : ℕ}
variable {e : HistEntry}

/-- What `get_new_connection` does to the record of a client that comes back. -/
theorem getNewConnection_known (hl : HistList t.hist t.firstIdLst l)
    (hacc : io.accept = some remoteIp)
    (hfree : ServerThread.findInactive t.connData MAXCLIENTCONNECTIONS 0 = some newConn)
    (chanInfoG : ChannelInfo) (listenerNo : ℕ)
    (hknown : t.hist.book l (remoteIp, SERVERPORTNO + listenerNo) = some e) :
    ∃ t' l', t.getNewConnection io chanInfoG listenerNo = .ok (t', [.opened newConn]) ∧
      HistList t'.hist t'.firstIdLst l' ∧
      t'.hist.book l' (remoteIp, SERVERPORTNO + listenerNo) =
        some ⟨(remoteIp, SERVERPORTNO + listenerNo), io.now,
          ServerThread.setBack e.lastPacketTime⟩ := by
  obtain ⟨hist, head, l', p, hopen, hl', -, -, hbook⟩ :=
    openConnection_spec hl io chanInfoG remoteIp listenerNo newConn rfl
  have hget : t.getNewConnection io chanInfoG listenerNo = _ :=
    getNewConnection_of_some hacc hfree listenerNo
  rw [hopen] at hget
  refine ⟨_, l', hget, hl', ?_⟩
  rw [hbook, Function.update_self, hknown]
  rfl

/-- **A client that comes back resumes at the start of a minute exactly if its last packet was
`SECONDS_OVERLAP` behind one.**  The packets that it gets then start behind the time that its record
is set to, and with the first one there. -/
theorem getNewConnection_resumes_iff (hl : HistList t.hist t.firstIdLst l)
    (hacc : io.accept = some remoteIp)
    (hfree : ServerThread.findInactive t.connData MAXCLIENTCONNECTIONS 0 = some newConn)
    (chanInfoG : ChannelInfo) (listenerNo : ℕ)
    (hknown : t.hist.book l (remoteIp, SERVERPORTNO + listenerNo) = some e) :
    ∃ t' l' e', t.getNewConnection io chanInfoG listenerNo = .ok (t', [.opened newConn]) ∧
      HistList t'.hist t'.firstIdLst l' ∧
      t'.hist.book l' (remoteIp, SERVERPORTNO + listenerNo) = some e' ∧
      (∀ r : DataRing, r.Ok → ∀ x ∈ r.entries, e'.lastPacketTime + 1 / 1000 ≤ x.1 →
        ∃ element pkt, (r.retr e'.lastPacketTime).2 = some (element, pkt) ∧
          e'.lastPacketTime + 1 / 1000 ≤ element.packetTime ∧ element.packetTime ≤ x.1) ∧
      (Resumes e.lastPacketTime e'.lastPacketTime ↔
        ∃ k : ℤ, e.lastPacketTime - SECONDS_OVERLAP = 60 * k) := by
  obtain ⟨t', l', hopen, hl', hbook⟩ :=
    getNewConnection_known hl hacc hfree chanInfoG listenerNo hknown
  refine ⟨t', l', _, hopen, hl', hbook, ?_, resumes_setBack_iff e.lastPacketTime⟩
  intro r hok x hx hle
  exact DataRing.retr_reaches hok hx hle

/-- The thread with one record, of a client whose last packet was of the time `time`. -/
def oneClient (time : PacketTime) : ServerThread :=
  { ServerThread.init fun _ => 0 with
    hist := ⟨fun p => if p = 0 then some ⟨0, time, [0x31], SERVERPORTNO, none⟩ else none, 1⟩
    firstIdLst := some 0 }

/-- The outcomes for a listening socket when that client comes back. -/
def comesBack : ServerIO :=
  ⟨true, true, true, true, true, .again, ⟨0, .EAGAIN⟩, some [0x31], true, 0, fun _ => 0⟩

theorem histList_oneClient (time : PacketTime) :
    HistList (oneClient time).hist (oneClient time).firstIdLst [0] := by
  refine ⟨.cons rfl .nil, by simp [oneClient], ?_⟩
  intro p hp q hq _ _ _ _ _
  rw [List.mem_singleton.1 hp, List.mem_singleton.1 hq]

theorem book_oneClient (time : PacketTime) :
    (oneClient time).hist.book [0] ([0x31], SERVERPORTNO + (0 : ℕ)) =
      some ⟨([0x31], SERVERPORTNO), 0, time⟩ := by
  rw [Nat.cast_zero, add_zero]
  exact (histList_oneClient time).book_eq_some.2 ⟨0, List.mem_singleton_self 0, rfl, rfl⟩

/-- A client whose last packet was 4 seconds into a minute. -/
theorem getNewConnection_resumes : ∃ t' l' e',
    (oneClient 1024).getNewConnection comesBack ⟨10, 1, 1⟩ 0 = .ok (t', [.opened 0]) ∧
    t'.hist.book l' ([0x31], SERVERPORTNO + (0 : ℕ)) = some e' ∧
    Resumes 1024 e'.lastPacketTime := by
  obtain ⟨t', l', e', hopen, -, hbook, -, hiff⟩ :=
    getNewConnection_resumes_iff (histList_oneClient 1024)
      (show comesBack.accept = some [0x31] from rfl) rfl ⟨10, 1, 1⟩ 0 (book_oneClient 1024)
  exact ⟨t', l', e', hopen, hbook, hiff.2 ⟨17, by norm_num [SECONDS_OVERLAP]⟩⟩

/-- A client whose last packet was 10 seconds into a minute resumes 6 seconds into it. -/
theorem getNewConnection_mid_minute : ∃ t' l' e',
    (oneClient 1030).getNewConnection comesBack ⟨10, 1, 1⟩ 0 = .ok (t', [.opened 0]) ∧
    HistList t'.hist t'.firstIdLst l' ∧
    t'.hist.book l' ([0x31], SERVERPORTNO + (0 : ℕ)) = some e' ∧ e'.lastPacketTime = 1026 ∧
    ¬ Resumes 1030 e'.lastPacketTime := by
  obtain ⟨t', l', hopen, hl', hbook⟩ :=
    getNewConnection_known (histList_oneClient 1030)
      (show comesBack.accept = some [0x31] from rfl) rfl ⟨10, 1, 1⟩ 0 (book_oneClient 1030)
  refine ⟨t', l', _, hopen, hl', hbook, ?_, ?_⟩
  · rw [setBack_eq]
    norm_num [SECONDS_OVERLAP]
  · rintro ⟨⟨k, hk⟩, -, -⟩
    rw [setBack_eq] at hk
    norm_num [SECONDS_OVERLAP] at hk
    have hint : (1026 : ℤ) = 60 * k := by exact_mod_cast hk
    omega

end SdrProxy
