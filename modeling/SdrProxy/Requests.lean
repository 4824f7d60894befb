import SdrProxy.ClientThread
import SdrProxy.Server
import SdrProxy.Lib.Machine

/-!
# Channel requests

What a client sends to start the transmission, and how the server finds it in the bytes of the
client, whatever pieces they arrive in.

* `hearMachine` : pieces that arrive on a connection, each followed by `check_server_incoming`;
  `serviceIncoming_hears` says that `service_connection` does this;
* `Heard` : the bytes still on the ring are the end of those that arrived, and every occurrence of
  the request in front of them has been reported, whatever is still to come;
* `requests_detected` : so requests are detected exactly;
* `request_recognised_iff` : the string that `send_channel_request` sends is recognised if no
  client number was given, and never with one.
-/

namespace SdrProxy

/-- A connection on which pieces of a stream arrive.  A piece is stored on the receive ring if there
is room for it, and `check_server_incoming` is called; its result is the event. -/
def hearMachine : Machine ConnectionData (List UInt8) ℤ where
  step c chunk :=
    if chunk.length ≤ c.rcvRing.bytesFree then
      let r := checkServerIncoming { c with rcvRing := (c.rcvRing.store chunk).2 }
      some (r.2, [r.1])
    else none

variable {c c' : ConnectionData} {chunk : List UInt8} {chunks : List (List UInt8)}
variable {results es : List ℤ} {i : ℕ}

/-! ### One call -/

/-- A request is taken off the ring with the bytes in front of it. -/
theorem checkServerIncoming_found (h : findSub CHANREQUEST c.rcvRing.contents = some i) :
    (checkServerIncoming c).1 = 1 ∧ (checkServerIncoming c).2.rcvRing.contents =
      c.rcvRing.contents.drop (i + CHANREQUESTLEN) := by
  have hle := findSub_le h
  have hlen : CHANREQUEST.length = CHANREQUESTLEN := rfl
  rw [hlen, RingSet.length_contents] at hle
  have hskip : (if 0 < (i : ℤ) then (c.rcvRing.delete (i : ℤ).toNat).2 else c.rcvRing).contents =
      c.rcvRing.contents.drop i := by
    rw [Int.toNat_natCast]
    split_ifs with hi
    · exact RingSet.contents_delete (by omega)
    · obtain rfl : i = 0 := by omega
      rw [List.drop_zero]
  unfold checkServerIncoming
  rw [searchRing_eq (by decide), h, idx_some, if_pos (Int.natCast_nonneg i)]
  refine ⟨rfl, ?_⟩
  dsimp only
  rw [RingSet.contents_delete, hskip, List.drop_drop]
  rw [← RingSet.length_contents, hskip, List.length_drop, RingSet.length_contents]
  omega

/-- Without a request on it the ring keeps the last bytes, as many as a request has. -/
theorem checkServerIncoming_missed (h : findSub CHANREQUEST c.rcvRing.contents = none) :
    (checkServerIncoming c).1 = 0 ∧ (checkServerIncoming c).2.rcvRing.contents =
      c.rcvRing.contents.drop (c.rcvRing.contents.length - CHANREQUESTLEN) := by
  unfold checkServerIncoming
  rw [searchRing_eq (by decide), h, idx_none, if_neg (by decide), RingSet.length_contents]
  refine ⟨rfl, ?_⟩
  dsimp only
  split_ifs with hlt
  · exact RingSet.contents_delete (Nat.sub_le _ _)
  · rw [Nat.sub_eq_zero_of_le (Nat.not_lt.1 hlt), List.drop_zero]

/-- The first part of `service_connection` is a step of the machine, for a piece that `recv` can
hand over, and the state that goes with the result. -/
theorem serviceIncoming_hears {io : ServerIO} {r : ℤ} (hread : io.readable = true)
    (hrecv : io.recv = .bytes chunk) (hne : chunk ≠ []) (hle : chunk.length ≤ SERVERRCVBFRSIZE)
    (hstep : hearMachine.step c chunk = some (c', [r])) :
    serviceIncoming io c = if r = 1 then { c' with state := .SRVR_STATE_SENDCHAN } else c' := by
  simp only [hearMachine] at hstep
  split_ifs at hstep with hfits
  obtain ⟨rfl, hr⟩ := Prod.mk.inj (Option.some.inj hstep)
  obtain rfl := (List.cons.inj hr).1
  have hpos : 0 < chunk.length := List.length_pos_iff.2 hne
  have hfree : ¬ min SERVERRCVBFRSIZE c.rcvRing.bytesFree = 0 := by
    have hsize : SERVERRCVBFRSIZE = 300 := rfl
    omega
  have htake : chunk.take (min SERVERRCVBFRSIZE c.rcvRing.bytesFree) = chunk :=
    List.take_of_length_le (Nat.le_min.2 ⟨hle, hfits⟩)
  have hrcv : serverRcvToRing (.bytes chunk) c =
      ((chunk.length : ℤ), { c with rcvRing := (c.rcvRing.store chunk).2 }) := by
    simp only [serverRcvToRing, hfree, ↓reduceIte, htake, hpos]
  have hnonneg : ¬ (chunk.length : ℤ) < 0 := by omega
  simp only [serviceIncoming, hread, hrecv, hrcv, hnonneg, Int.natCast_pos, hpos, ↓reduceIte]

/-! ### Any number of calls -/

theorem unbordered_chanRequest : Unbordered CHANREQUEST := by decide

/-- What a connection has heard: of the bytes that arrived the first `consumed` are gone, and
`reported` are the positions of the requests among them.  Bytes still to come do not change that. -/
structure Heard (c : ConnectionData) (chunks : List (List UInt8)) (results : List ℤ)
    (reported : List ℕ) (consumed : ℕ) : Prop where
  le : consumed ≤ chunks.flatten.length
  ring : c.rcvRing.contents = chunks.flatten.drop consumed
  split : ∀ more, occurrences CHANREQUEST (chunks.flatten ++ more) = reported ++
    (occurrences CHANREQUEST ((chunks.flatten ++ more).drop consumed)).map (consumed + ·)
  calls : results.length = chunks.length
  count : results.count 1 = reported.length
  binary : ∀ r ∈ results, r = 0 ∨ r = 1
  hit : results.getLast? = some 1 →
    ∃ pos, reported.getLast? = some pos ∧ consumed = pos + CHANREQUESTLEN
  miss : results.getLast? = some 0 → findSub CHANREQUEST c.rcvRing.contents = none

namespace Heard

variable {reported : List ℕ} {consumed : ℕ}

/-- Before anything arrives. -/
theorem init (h : c.rcvRing.contents = []) : Heard c [] [] [] 0 where
  le := Nat.le_refl _
  ring := h
  split more := by simp
  calls := rfl
  count := rfl
  binary := by simp
  hit := by simp
  miss := by simp

theorem found (h : Heard c chunks results reported consumed)
    (hfind : findSub CHANREQUEST ((chunks ++ [chunk]).flatten.drop consumed) = some i)
    (hring : c'.rcvRing.contents =
      ((chunks ++ [chunk]).flatten.drop consumed).drop (i + CHANREQUESTLEN)) :
    Heard c' (chunks ++ [chunk]) (results ++ [1]) (reported ++ [consumed + i])
      (consumed + i + CHANREQUESTLEN) := by
  have hlen : CHANREQUEST.length = CHANREQUESTLEN := rfl
  have hle := findSub_le hfind
  have hflat : (chunks ++ [chunk]).flatten = chunks.flatten ++ chunk := by simp
  have hconsumed := h.le
  rw [List.length_drop, hlen, hflat, List.length_append] at hle
  refine ⟨?_, ?_, ?_, by simp [h.calls], ?_, ?_, ?_, ?_⟩
  · rw [hflat, List.length_append]
    have hpos : CHANREQUESTLEN = 7 := rfl
    omega
  · rw [hring, List.drop_drop, Nat.add_assoc]
  · -- the occurrences behind the consumed bytes begin with this one
    intro more
    have hsplit := h.split (chunk ++ more)
    rw [← List.append_assoc, ← hflat] at hsplit
    have hfirst : findSub CHANREQUEST (((chunks ++ [chunk]).flatten ++ more).drop consumed) =
        some i := by
      rw [List.drop_append_of_le_length (by rw [hflat, List.length_append]; omega)]
      exact findSub_append_left hfind
    rw [hsplit, unbordered_chanRequest.occurrences_of_findSub (by decide) hfirst, List.map_cons,
      List.append_cons, List.map_map, List.drop_drop, hlen, ← Nat.add_assoc]
    congr 2
    funext k
    simp only [Function.comp_apply]
    omega
  · rw [List.count_append, h.count, List.length_append]
    rfl
  · intro r hr
    rcases List.mem_append.1 hr with hr | hr
    · exact h.binary r hr
    · exact .inr (List.mem_singleton.1 hr)
  · intro _
    exact ⟨consumed + i, by simp, rfl⟩
  · intro hlast
    simp at hlast

theorem missed (h : Heard c chunks results reported consumed)
    (hfind : findSub CHANREQUEST ((chunks ++ [chunk]).flatten.drop consumed) = none) {m : ℕ}
    (hm : m = ((chunks ++ [chunk]).flatten.drop consumed).length - CHANREQUESTLEN)
    (hring : c'.rcvRing.contents = ((chunks ++ [chunk]).flatten.drop consumed).drop m) :
    Heard c' (chunks ++ [chunk]) (results ++ [0]) reported (consumed + m) := by
  have hlen : CHANREQUEST.length = CHANREQUESTLEN := rfl
  have hflat : (chunks ++ [chunk]).flatten = chunks.flatten ++ chunk := by simp
  have hconsumed := h.le
  have hrest : ((chunks ++ [chunk]).flatten.drop consumed).length =
      (chunks ++ [chunk]).flatten.length - consumed := List.length_drop
  have htotal : (chunks ++ [chunk]).flatten.length = chunks.flatten.length + chunk.length := by
    rw [hflat, List.length_append]
  refine ⟨by omega, ?_, ?_, by simp [h.calls], ?_, ?_, ?_, ?_⟩
  · rw [hring, List.drop_drop]
  · intro more
    have hsplit := h.split (chunk ++ more)
    rw [← List.append_assoc, ← hflat] at hsplit
    have hdrop : ((chunks ++ [chunk]).flatten ++ more).drop consumed =
        (chunks ++ [chunk]).flatten.drop consumed ++ more :=
      List.drop_append_of_le_length (by omega)
    have hno : ∀ j < m,
        ¬ CHANREQUEST <+: (((chunks ++ [chunk]).flatten ++ more).drop consumed).drop j := by
      intro j hj hp
      rw [hdrop, isPrefixOf_drop_append (by omega)] at hp
      exact findSub_eq_none_iff.1 hfind j (by omega) hp
    have hle : m ≤ (((chunks ++ [chunk]).flatten ++ more).drop consumed).length := by
      rw [hdrop, List.length_append]
      omega
    rw [hsplit, occurrences_drop hle hno, List.map_map, List.drop_drop]
    congr 2
    funext k
    simp only [Function.comp_apply]
    omega
  · rw [List.count_append, h.count]
    rfl
  · intro r hr
    rcases List.mem_append.1 hr with hr | hr
    · exact h.binary r hr
    · exact .inl (List.mem_singleton.1 hr)
  · intro hlast
    simp at hlast
  · intro _
    rw [hring]
    exact findSub_drop_eq_none hfind m

/-- **A call keeps the books.** -/
theorem step (h : Heard c chunks results reported consumed)
    (hstep : hearMachine.step c chunk = some (c', es)) :
    ∃ reported' consumed', Heard c' (chunks ++ [chunk]) (results ++ es) reported' consumed' := by
  simp only [hearMachine] at hstep
  split_ifs at hstep with hfits
  obtain ⟨rfl, rfl⟩ := Prod.mk.inj (Option.some.inj hstep)
  have hcont : (c.rcvRing.store chunk).2.contents =
      (chunks ++ [chunk]).flatten.drop consumed := by
    rw [RingSet.contents_store hfits, h.ring, List.flatten_append, List.flatten_singleton,
      List.drop_append_of_le_length h.le]
  cases hfind : findSub CHANREQUEST ((chunks ++ [chunk]).flatten.drop consumed) with
  | some i =>
    obtain ⟨hres, hring⟩ := checkServerIncoming_found
      (c := { c with rcvRing := (c.rcvRing.store chunk).2 }) (hcont ▸ hfind)
    rw [hres]
    exact ⟨_, _, h.found hfind (by rw [hring, hcont])⟩
  | none =>
    obtain ⟨hres, hring⟩ := checkServerIncoming_missed
      (c := { c with rcvRing := (c.rcvRing.store chunk).2 }) (hcont ▸ hfind)
    rw [hres]
    exact ⟨_, _, h.missed hfind rfl (by rw [hring, hcont])⟩

theorem of_run (hempty : c.rcvRing.contents = [])
    (hrun : hearMachine.run c chunks = some (c', results)) :
    ∃ reported consumed, Heard c' chunks results reported consumed := by
  refine Machine.run_ind_labels (fun c chunks results => ∃ reported consumed,
    Heard c chunks results reported consumed) ⟨[], 0, .init hempty⟩ ?_ hrun
  rintro c chunk c' chunks results es ⟨reported, consumed, h⟩ hstep
  exact h.step hstep

theorem mem_iff (h : Heard c chunks results reported consumed) (hne : chunks ≠ []) :
    1 ∈ results ↔ findSub CHANREQUEST chunks.flatten ≠ none := by
  have hsplit := h.split []
  rw [List.append_nil] at hsplit
  constructor
  · intro hmem hnone
    rw [occurrences_eq_nil_iff.2 hnone] at hsplit
    have hpos := List.count_pos_iff.2 hmem
    rw [h.count, (List.append_eq_nil_iff.1 hsplit.symm).1] at hpos
    exact absurd hpos (Nat.lt_irrefl 0)
  · intro hfind
    by_contra hno
    apply hfind
    -- nothing was reported, and the last call found nothing in what was left
    have hreported : reported = [] := by
      rw [← List.length_eq_zero_iff, ← h.count]
      exact List.count_eq_zero.2 hno
    have hresults : results ≠ [] := by
      rw [← List.length_pos_iff, h.calls]
      exact List.length_pos_iff.2 hne
    have hlast : results.getLast? = some 0 := by
      have hmem := List.getLast_mem hresults
      rw [List.getLast?_eq_some_getLast hresults]
      rcases h.binary _ hmem with h0 | h1
      · rw [h0]
      · exact absurd (h1 ▸ hmem) hno
    have hmiss := h.miss hlast
    rw [h.ring] at hmiss
    rw [← occurrences_eq_nil_iff, hsplit, hreported, occurrences_eq_nil_iff.2 hmiss]
    rfl

end Heard

/-- **Channel requests are detected exactly, whatever the fragmentation.**  After any number of
pieces, if the last call returned 1 and was the `k`-th to do so, the ring starts behind the `k`-th
occurrence of the request in the stream; if it returned 0, all occurrences in the bytes that have
arrived have been reported. -/
theorem requests_detected (hempty : c.rcvRing.contents = [])
    (hrun : hearMachine.run c chunks = some (c', results)) (more : List UInt8) :
    (∀ r ∈ results, r = 0 ∨ r = 1) ∧
    (results.getLast? = some 1 → ∃ pos,
      (occurrences CHANREQUEST (chunks.flatten ++ more))[results.count 1 - 1]? = some pos ∧
      pos + CHANREQUESTLEN ≤ chunks.flatten.length ∧
      c'.rcvRing.contents = chunks.flatten.drop (pos + CHANREQUESTLEN)) ∧
    (results.getLast? = some 0 →
      (occurrences CHANREQUEST chunks.flatten).length = results.count 1) := by
  obtain ⟨reported, consumed, h⟩ := Heard.of_run hempty hrun
  refine ⟨h.binary, ?_, ?_⟩
  · intro hlast
    obtain ⟨pos, hpos, rfl⟩ := h.hit hlast
    refine ⟨pos, ?_, h.le, h.ring⟩
    have hlen : reported.length - 1 < reported.length := by
      have hne : reported ≠ [] := by
        rintro rfl
        cases hpos
      have := List.length_pos_iff.2 hne
      omega
    rw [h.split more, h.count, List.getElem?_append_left hlen, ← List.getLast?_eq_getElem?, hpos]
  · intro hlast
    have hmiss := h.miss hlast
    have hsplit := h.split []
    rw [List.append_nil] at hsplit
    rw [h.ring] at hmiss
    rw [hsplit, occurrences_eq_nil_iff.2 hmiss, List.map_nil, List.append_nil, h.count]

/-- A connection that was just opened. -/
def listening : ConnectionData :=
  ⟨.SRVR_STATE_INIT, none, SRVR_IDLE_TIMEOUT, .alloc SERVERRCVBFRSIZE fun _ => 0,
    .alloc 0 fun _ => 0⟩

/-- A request with a byte in front of it and one behind, cut inside. -/
def cutRequest : List (List UInt8) := [[0x78, 0x53, 0x45, 0x4E], [0x44, 0x20, 0x41, 0x44, 0x79]]

/-- The second call reports it. -/
theorem requests_detected_cut : ∃ c', hearMachine.run listening cutRequest = some (c', [0, 1]) ∧
    (∀ r ∈ ([0, 1] : List ℤ), r = 0 ∨ r = 1) ∧
    (([0, 1] : List ℤ).getLast? = some 1 → ∃ pos,
      (occurrences CHANREQUEST (cutRequest.flatten ++ []))[([0, 1] : List ℤ).count 1 - 1]? =
        some pos ∧
      pos + CHANREQUESTLEN ≤ cutRequest.flatten.length ∧
      c'.rcvRing.contents = cutRequest.flatten.drop (pos + CHANREQUESTLEN)) ∧
    (([0, 1] : List ℤ).getLast? = some 0 →
      (occurrences CHANREQUEST cutRequest.flatten).length = ([0, 1] : List ℤ).count 1) := by
  have hres : (hearMachine.run listening cutRequest).map Prod.snd = some [0, 1] := by
    decide +kernel
  obtain ⟨⟨c', results⟩, hrun, rfl⟩ := Option.map_eq_some_iff.1 hres
  exact ⟨c', hrun, requests_detected (RingSet.contents_alloc _ _) hrun []⟩

/-! ### The two ends of the protocol -/

/-- What a client with a number sends holds no request, whatever bytes are in front of it. -/
theorem findSub_numbered {clientNo : ℤ} (hno : 0 ≤ clientNo ∧ clientNo ≤ 9) {pre : List UInt8}
    (hpre : findSub CHANREQUEST pre = none) :
    findSub CHANREQUEST (pre ++ (sendStr clientNo).take CHANREQUESTLEN) = none := by
  obtain ⟨h₀, h₉⟩ := hno
  have hstr : ∀ n < 10, findSub CHANREQUEST ((sendStr (n : ℕ)).take CHANREQUESTLEN) = none ∧
      ∀ k < CHANREQUEST.length, 0 < k →
        ¬ CHANREQUEST.drop k <+: (sendStr (n : ℕ)).take CHANREQUESTLEN := by
    decide +kernel
  obtain ⟨n, rfl⟩ := Int.eq_ofNat_of_zero_le h₀
  obtain ⟨hin, hacross⟩ := hstr n (by omega)
  exact findSub_append_eq_none hpre hin hacross

/-- **A request is recognised if it carries no client number, and only then.**  The string that
`send_channel_request` queues arrives behind other bytes, in any pieces; some call of
`check_server_incoming` returns 1 exactly if no client number was given. -/
theorem request_recognised_iff {clientNo : ℤ} {sendRing : RingSet} {pre request : List UInt8}
    (hno : clientNo = -1 ∨ 0 ≤ clientNo ∧ clientNo ≤ 9)
    (hsend : (sendChannelRequest clientNo sendRing).1 = 0)
    (hqueued : (sendChannelRequest clientNo sendRing).2.contents = sendRing.contents ++ request)
    (hempty : c.rcvRing.contents = []) (hpre : findSub CHANREQUEST pre = none)
    (hstream : chunks.flatten = pre ++ request)
    (hrun : hearMachine.run c chunks = some (c', results)) :
    1 ∈ results ↔ clientNo = -1 := by
  have hrequest : request = (sendStr clientNo).take CHANREQUESTLEN := by
    unfold sendChannelRequest at hsend hqueued
    split_ifs at hsend hqueued with hfree
    · rw [RingSet.contents_store (le_trans (List.length_take_le _ _) hfree)] at hqueued
      exact (List.append_cancel_left hqueued).symm
    · cases hsend
  have hne : chunks ≠ [] := by
    rintro rfl
    rw [List.flatten_nil, eq_comm, List.append_eq_nil_iff] at hstream
    have hnil := hrequest.symm.trans hstream.2
    rcases hno with rfl | ⟨h₀, h₉⟩
    · exact absurd hnil (by decide)
    · interval_cases clientNo <;> exact absurd hnil (by decide)
  obtain ⟨reported, consumed, h⟩ := Heard.of_run hempty hrun
  rw [h.mem_iff hne, hstream, hrequest]
  constructor
  · intro hfound
    rcases hno with hminus | hnumber
    · exact hminus
    · exact absurd (findSub_numbered hnumber hpre) hfound
  · rintro rfl
    rw [unbordered_chanRequest.findSub_append hpre (by decide)]
    exact Option.some_ne_none _

/-- A send ring with room. -/
def roomyRing : RingSet := .alloc BFRSIZE fun _ => 0

/-- What a client with number 5 sends is not recognised. -/
theorem numbered_not_recognised :
    (sendChannelRequest 5 roomyRing).1 = 0 ∧
      (hearMachine.run listening [(sendChannelRequest 5 roomyRing).2.contents]).map Prod.snd =
        some [0] := by
  decide +kernel

/-- A byte and the request of a client without a number, in two pieces. -/
def plainRequest : List (List UInt8) := [[0x78, 0x53, 0x45, 0x4E], [0x44, 0x20, 0x41, 0x44]]

/-- It is recognised. -/
theorem request_recognised_plain : ∃ c', hearMachine.run listening plainRequest =
    some (c', [0, 1]) ∧ ((1 : ℤ) ∈ [(0 : ℤ), 1] ↔ (-1 : ℤ) = -1) := by
  have hres : (hearMachine.run listening plainRequest).map Prod.snd = some [0, 1] := by
    decide +kernel
  have hqueued : (sendChannelRequest (-1) roomyRing).2.contents =
      roomyRing.contents ++ CHANREQUEST := by
    decide +kernel
  obtain ⟨⟨c', results⟩, hrun, rfl⟩ := Option.map_eq_some_iff.1 hres
  exact ⟨c', hrun, request_recognised_iff (.inl rfl) (by decide) hqueued
    (RingSet.contents_alloc _ _) (show findSub CHANREQUEST [0x78] = none by decide) rfl hrun⟩

end SdrProxy
