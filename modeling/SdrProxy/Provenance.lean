import SdrProxy.Exits
import SdrProxy.Framing
import SdrProxy.Packets

/-!
# Where the messages for the clients come from

Nothing goes out that did not come in, in any run of the three threads.

* `hear` : the bytes that each connection to the remote server has brought, over a run;
* `HeardIn` : the bytes stand somewhere in one of these streams;
* `turn_genuine` : what a turn of `check_data` hands on stands on the ring;
* `Core.Genuine` : the packets of the cache, and the configurations that the threads hold, were
  heard; each step keeps it (`Core.Genuine.step`);
* `placed_was_heard` : every packet that is placed on a send ring is a good one that was heard, and
  every text states a configuration that a text announced which was heard.
-/

namespace SdrProxy

/-! ### What was heard -/

/-- The bytes that a step of the client thread puts on its receive ring. -/
def ClientThread.arrived (io : ClientIO) (c : ClientThread) : List UInt8 :=
  if c.CallsRcv io then
    match io.recv with
    | .bytes l => l.take (min BFRSIZE c.rcvRing.bytesFree)
    | _ => []
  else []

/-- A step of the client thread connects to the remote server. -/
def ClientThread.Connects (c : ClientThread) : Prop := c.pc = .top ∧ c.state = .CLI_STATE_CONNECT

instance (c : ClientThread) : Decidable c.Connects := inferInstanceAs (Decidable (_ ∧ _))

/-- The streams of bytes of the connections to the remote server, the latest first. -/
def hear (g : List (List UInt8)) (s : Core) (l : Label) (_ : List Event) : List (List UInt8) :=
  match l with
  | .client io =>
    if s.client.Connects then [] :: g else (g.headD [] ++ s.client.arrived io) :: g.tail
  | _ => g

/-- The bytes stand in a stream. -/
def HeardIn (g : List (List UInt8)) (w : List UInt8) : Prop := ∃ stream ∈ g, w <:+: stream

/-- A text was heard that announces the configuration. -/
def AnnouncedIn (g : List (List UInt8)) (c : ChannelInfo) : Prop :=
  ∃ text, ValidText text c ∧ HeardIn g text

variable {g : List (List UInt8)} {s s' : Core} {l : Label} {es : List Event}

/-- What was heard stays heard. -/
theorem HeardIn.hear {w : List UInt8} (h : HeardIn g w) : HeardIn (hear g s l es) w := by
  obtain ⟨stream, hmem, hin⟩ := h
  cases l with
  | main mem => exact ⟨stream, hmem, hin⟩
  | server io => exact ⟨stream, hmem, hin⟩
  | client io =>
    unfold SdrProxy.hear
    dsimp only
    split_ifs
    · exact ⟨stream, List.mem_cons_of_mem _ hmem, hin⟩
    · cases g with
      | nil => cases hmem
      | cons cur old =>
        rcases List.mem_cons.1 hmem with rfl | hmem
        · exact ⟨_, List.mem_cons_self, hin.trans (List.infix_append' [] stream _)⟩
        · exact ⟨stream, List.mem_cons_of_mem _ hmem, hin⟩

theorem AnnouncedIn.hear {c : ChannelInfo} (h : AnnouncedIn g c) :
    AnnouncedIn (hear g s l es) c := by
  obtain ⟨text, hvalid, hheard⟩ := h
  exact ⟨text, hvalid, hheard.hear⟩

/-! ### One turn -/

/-- What a turn hands on stands on the ring, and what it leaves is its end. -/
structure TurnGenuine (s : List UInt8) (t : Turn) : Prop where
  rest : t.rest <:+ s
  packet : ∀ pkt, t.item = some (.adc pkt) → GoodPacket pkt ∧ pkt <:+: s
  text : ∀ c, t.item = some (.chan c) → ∃ text, ValidText text c ∧ text <:+: s

section Turn

variable {inhibitAdc : Bool} {bytes : List UInt8} {t : Turn}

theorem adcTurn_genuine (h : adcTurn bytes = some t) : TurnGenuine bytes t := by
  refine ⟨?_, ?_, fun c hitem => absurd hitem (adcTurn_item_ne h)⟩
  · unfold adcTurn at h
    dsimp only at h
    split_ifs at h <;> obtain rfl := Option.some.inj h <;>
      first | exact List.drop_suffix _ _ | exact List.suffix_refl _
  · intro pkt hitem
    obtain ⟨-, htake, hgood⟩ := adcTurn_item h hitem
    exact ⟨hgood, htake ▸ (List.take_prefix _ _).isInfix⟩

theorem chanTurn_genuine (htoken : CHANTOKEN <+: bytes) : TurnGenuine bytes (chanTurn bytes) := by
  refine ⟨?_, fun pkt hitem => absurd hitem (chanTurn_item_ne _ _), ?_⟩
  · unfold chanTurn
    split_ifs
    · cases acceptedInfo (bytes.take CHANINFOLEN) <;> exact List.drop_suffix _ _
    · exact List.suffix_refl _
  · intro c hitem
    unfold chanTurn at hitem
    split_ifs at hitem with hlen
    cases hacc : acceptedInfo (bytes.take CHANINFOLEN) with
    | none => simp [hacc] at hitem
    | some c' =>
      obtain rfl : c' = c := by simpa [hacc] using hitem
      have htake : (bytes.take CHANINFOLEN).length = CHANINFOLEN := by
        rw [List.length_take, Nat.min_eq_left hlen]
      refine ⟨bytes.take CHANINFOLEN, ⟨htake, ?_, hacc⟩, (List.take_prefix _ _).isInfix⟩
      refine List.prefix_of_prefix_length_le htoken (List.take_prefix _ _) ?_
      rw [htake]
      decide

/-- **A turn hands on what stands on the ring.** -/
theorem turn_genuine (h : turn inhibitAdc bytes = some t) : TurnGenuine bytes t := by
  have hdrop : ∀ {i : ℕ}, TurnGenuine (bytes.drop i) t → TurnGenuine bytes t := by
    intro i ht
    have hsuf := List.drop_suffix i bytes
    refine ⟨ht.rest.trans hsuf, ?_, ?_⟩
    · intro pkt hitem
      exact (ht.packet pkt hitem).imp id fun hin => hin.trans hsuf.isInfix
    · intro c hitem
      obtain ⟨text, hvalid, hin⟩ := ht.text c hitem
      exact ⟨text, hvalid, hin.trans hsuf.isInfix⟩
  rcases turn_cases inhibitAdc bytes with ⟨-, -, heq⟩ | ⟨i, hi, -, heq⟩ | ⟨a, -, -, heq⟩
  · rw [heq] at h
    obtain rfl := Option.some.inj h
    exact ⟨List.suffix_refl _, by simp, by simp⟩
  · rw [heq] at h
    obtain rfl := Option.some.inj h
    exact hdrop (chanTurn_genuine (findSub_eq_some_iff.1 (chanAt_eq_some.1 hi).1).2.1)
  · rw [heq] at h
    exact hdrop (adcTurn_genuine h)

/-- What a pass leaves is the end of what its last turn has left. -/
theorem purged_suffix (inhibitAdc : Bool) (bytes : List UInt8) :
    purged inhibitAdc bytes <:+ bytes := by
  unfold purged
  split_ifs
  · exact List.nil_suffix
  · exact List.suffix_refl _

end Turn

/-! ### The receive ring -/

namespace ClientThread

variable {io : ClientIO} {c c' : ClientThread}

theorem receiveStage_contents (hpc : c.pc = .top) (h : receiveStage io c = .ok c') :
    c'.rcvRing.contents = c.rcvRing.contents ++ c.arrived io := by
  have hnone : ¬ c.CallsRcv io → c.arrived io = [] := fun hn => if_neg hn
  cases receiveStage_cases h with
  | skipped hconn =>
    rw [hnone, List.append_nil]
    rintro ⟨-, hconn', -⟩
    simp [hconn] at hconn'
  | idle readable writable _ hsel hidle =>
    rw [hnone, List.append_nil]
    rintro ⟨-, -, hread, hfull⟩
    rw [hsel, hidle hfull] at hread
    cases hread
  | called writable hconn hsel hfull =>
    have hcalls : c.CallsRcv io := ⟨hpc, hconn, by rw [hsel]; rfl, hfull⟩
    rw [noteReceived_rcvRing, arrived, if_pos hcalls]
    show (clientRcvToRing io.recv c.rcvRing).2.contents = _
    unfold clientRcvToRing
    dsimp only
    by_cases hfree : min BFRSIZE c.rcvRing.bytesFree = 0
    · rw [if_pos hfree]
      cases io.recv <;> simp [hfree]
    · rw [if_neg hfree]
      cases io.recv with
      | again => simp
      | error => simp
      | bytes bs =>
        dsimp only
        split_ifs with hpos
        · refine RingSet.contents_store ?_
          rw [List.length_take]
          omega
        · rw [List.length_eq_zero_iff.1 (Nat.le_zero.1 (not_lt.1 hpos)), List.append_nil]

theorem contents_of_top {clientNo : ℤ} {c₁ : ClientThread} (hpc : c.pc = .top)
    (hrcv : receiveStage io c = .ok c₁) (hdisp : dispatch io clientNo c₁ = .ok c') :
    c'.rcvRing.contents =
      if c.Connects then [] else c.rcvRing.contents ++ c.arrived io := by
  have hcontents := receiveStage_contents hpc hrcv
  have hsame : c₁.state ≠ .CLI_STATE_CONNECT → ¬ c.Connects := by
    rintro hne ⟨-, hst⟩
    rcases receiveStage_state hrcv with hs | ⟨hconn, -⟩
    · exact hne (hs.trans hst)
    · rw [hst] at hconn
      cases hconn
  cases dispatch_cases hdisp with
  | connect hst _ =>
    have hconnects : c.Connects := by
      refine ⟨hpc, ?_⟩
      rcases receiveStage_state hrcv with hs | ⟨-, hs | ⟨hs, -⟩⟩
      · exact hs.symm.trans hst
      · cases hs.symm.trans hst
      · cases hs.symm.trans hst
    rw [if_pos hconnects]
    exact RingSet.contents_init _
  | socket hst _ | close hst _ | request hst _ _ | wait hst _ | data hst =>
    rw [if_neg (hsame (by simp [hst]))]
    exact hcontents

theorem arrived_of_ne (hpc : c.pc ≠ .top) : c.arrived io = [] := if_neg fun h => hpc h.1

/-- **What the receive ring holds is the end of what it held and of what has arrived.** -/
theorem step_contents {comm comm' : ClientComm} {dataRing dataRing' : DataRing} {es : List Event}
    (h : c.step io comm dataRing = .ok (c', comm', dataRing', es)) :
    c'.rcvRing.contents <:+
      if c.Connects then [] else c.rcvRing.contents ++ c.arrived io := by
  by_cases hpc : c.pc = .top
  · simp only [step, hpc] at h
    obtain ⟨c₁, hrcv, h⟩ := bind_eq_ok.1 h
    obtain ⟨c₂, hdisp, h⟩ := bind_eq_ok.1 h
    cases h
    rw [contents_of_top hpc hrcv hdisp]
  · have hconn : ¬ c.Connects := fun hc => hpc hc.1
    rw [if_neg hconn, arrived_of_ne hpc, List.append_nil]
    have hmove := step_cases h
    unfold step at h
    cases hpc' : c.pc <;> simp only [hpc'] at h
    case start =>
      split_ifs at h
      cases h
      exact List.suffix_refl _
    case top => exact absurd hpc' hpc
    case sample =>
      cases h
      exact List.suffix_refl _
    case checking =>
      cases hmove with
      | quiet hpc'' _ _ _ _ => simp [hpc'] at hpc''
      | sample hpc'' => simp [hpc'] at hpc''
      | raise hpc'' _ => simp [hpc'] at hpc''
      | keep hpc'' _ => simp [hpc'] at hpc''
      | check t _ ht _ hcont _ _ _ _ _ =>
        rw [hcont]
        split_ifs
        · exact (turn_genuine ht).rest
        · exact (purged_suffix _ _).trans (turn_genuine ht).rest
    case publish =>
      split_ifs at h <;> cases h <;> exact List.suffix_refl _
    case sending =>
      obtain ⟨c₁, hsend, h⟩ := bind_eq_ok.1 h
      cases h
      rcases sendStage_cases hsend with rfl | ⟨rv, ring, rfl⟩ <;> exact List.suffix_refl _

end ClientThread

/-! ### The program -/

/-- The packet of the cache is a good one that was heard. -/
def Relayed (g : List (List UInt8)) (e : DataRing.Entry) : Prop :=
  GoodPacket e.2.2 ∧ HeardIn g e.2.2

namespace Core

/-- Where everything comes from that the threads hold: the streams `g`. -/
structure Genuine (s : Core) (g : List (List UInt8)) : Prop where
  /-- What the receive ring holds has arrived last. -/
  ring : s.exited = none → s.client.rcvRing.contents <:+ g.headD []
  ring_ok : s.dataRing.Ok
  cache : ∀ e ∈ s.dataRing.entries, Relayed g e
  new : s.client.newChanInfo = .zero ∨ AnnouncedIn g s.client.newChanInfo
  old : s.client.oldChanInfo = .zero ∨ AnnouncedIn g s.client.oldChanInfo
  comm : s.comm.chanInfo = .zero ∨ AnnouncedIn g s.comm.chanInfo
  served : s.chanInfoG = .zero ∨ AnnouncedIn g s.chanInfoG

theorem announced_or_zero_hear (s : Core) (l : Label) (es : List Event) {c : ChannelInfo}
    (h : c = .zero ∨ AnnouncedIn g c) : c = .zero ∨ AnnouncedIn (hear g s l es) c :=
  h.imp id AnnouncedIn.hear

/-- What stands on the receive ring was heard. -/
theorem Genuine.heard (h : s.Genuine g) (hexited : s.exited = none) {w : List UInt8}
    (hw : w <:+: s.client.rcvRing.contents) (hne : w ≠ []) : HeardIn g w := by
  have hin : w <:+: g.headD [] := hw.trans (h.ring hexited).isInfix
  cases g with
  | nil => exact absurd (List.infix_nil.1 hin) hne
  | cons cur old => exact ⟨cur, List.mem_cons_self, hin⟩

/-- The client thread holds and caches only what was heard. -/
theorem Genuine.client (h : s.Genuine g) (hexited : s.exited = none) {io : ClientIO}
    {client : ClientThread} {comm : ClientComm} {dataRing : DataRing}
    (hstep : s.client.step io s.comm s.dataRing = .ok (client, comm, dataRing, es)) :
    Genuine { s with client := client, comm := comm, dataRing := dataRing }
      (hear g s (.client io) es) := by
  have hring : client.rcvRing.contents <:+ (hear g s (.client io) es).headD [] := by
    have hsuf := ClientThread.step_contents hstep
    unfold hear
    dsimp only
    by_cases hconn : s.client.Connects
    · rw [if_pos hconn] at hsuf ⊢
      exact hsuf
    · rw [if_neg hconn] at hsuf ⊢
      obtain ⟨u, hu⟩ := h.ring hexited
      refine hsuf.trans ⟨u, ?_⟩
      rw [← List.append_assoc, hu]
      rfl
  have hnew := announced_or_zero_hear s (.client io) es h.new
  have hold := announced_or_zero_hear s (.client io) es h.old
  have hcomm := announced_or_zero_hear s (.client io) es h.comm
  have hserved := announced_or_zero_hear s (.client io) es h.served
  have hcache : ∀ e ∈ s.dataRing.entries, Relayed (hear g s (.client io) es) e :=
    fun e he => (h.cache e he).imp id HeardIn.hear
  cases ClientThread.step_cases hstep with
  | quiet _ _ _ hnew' hold' =>
    exact ⟨fun _ => hring, h.ring_ok, hcache, by rwa [hnew'], by rwa [hold'], hcomm, hserved⟩
  | sample _ => exact ⟨fun _ => hring, h.ring_ok, hcache, hold, hold, hcomm, hserved⟩
  | raise _ _ => exact ⟨fun _ => hring, h.ring_ok, hcache, hnew, hcomm, hnew, hserved⟩
  | keep _ _ => exact ⟨fun _ => hring, h.ring_ok, hcache, hnew, hold, hcomm, hserved⟩
  | check t _ ht _ _ _ hold' hnew' hdata hhanded =>
    have hgen := turn_genuine ht
    have hpacket := hgen.packet
    have htext := hgen.text
    generalize t.item = item at hhanded hpacket htext
    refine ⟨fun _ => hring, ?_, ?_, ?_, by rwa [hold'], hcomm, hserved⟩
    · show dataRing.Ok
      rw [hdata]
      cases hhanded with
      | none _ hsame => exact hsame ▸ h.ring_ok
      | chan c _ hsame => exact hsame ▸ h.ring_ok
      | adc element pktImg pkt ret _ _ hstore =>
        exact (DataRing.mem_entries_store h.ring_ok hstore).1
    · show ∀ e ∈ dataRing.entries, _
      rw [hdata]
      cases hhanded with
      | none _ hsame => exact hsame ▸ hcache
      | chan c _ hsame => exact hsame ▸ hcache
      | adc element pktImg pkt ret himg _ hstore =>
        intro e he
        rcases (DataRing.mem_entries_store h.ring_ok hstore).2 e he with ⟨-, rfl⟩ | hmem
        · obtain ⟨hgood, hin⟩ := hpacket pkt rfl
          have hne : pkt ≠ [] := by
            rintro rfl
            exact absurd hgood.length_lt (Nat.not_lt_zero _)
          rw [← himg] at hgood hin hne
          exact ⟨hgood, (h.heard hexited hin hne).hear⟩
        · exact hcache e hmem
    · show client.newChanInfo = .zero ∨ _
      rw [hnew']
      cases hhanded with
      | none hsame _ => exact hsame ▸ hnew
      | chan c hsame _ =>
        obtain ⟨text, hvalid, hin⟩ := htext c rfl
        have hne : text ≠ [] := by
          rintro rfl
          cases hvalid.length_eq
        rw [hsame]
        exact .inr ⟨text, hvalid, (h.heard hexited hin hne).hear⟩
      | adc element pktImg pkt ret _ hsame _ => exact hsame ▸ hnew

/-- **A step keeps everything genuine.** -/
theorem Genuine.step (h : s.Genuine g) (hstep : proxy.step s l = some (s', es)) :
    s'.Genuine (hear g s l es) := by
  have hexited := exited_of_step hstep
  have hmove := step_cases hstep
  change s.step l = _ at hstep
  simp only [Core.step, hexited, Option.isSome_none, Bool.false_eq_true, ↓reduceIte] at hstep
  cases l with
  | main io =>
    cases hmove with
    | fail msg _ => exact { h with ring := fun hnone => by cases hnone }
    | main hmain =>
      cases hmain with
      | copy _ => exact { h with served := h.comm }
      | finish _ => exact { h with served := h.comm }
      | dealloc _ => exact { h with ring_ok := DataRing.ok_dealloc h.ring_ok, cache := by simp }
      | alloc mem _ => exact { h with ring_ok := DataRing.ok_alloc _ _, cache := by simp }
      | _ => exact { h with }
  | client io =>
    simp only [clientStep] at hstep
    cases hres : s.client.step io s.comm s.dataRing with
    | error msg =>
      -- the program ends with what it holds
      rw [hres] at hstep
      cases hstep
      exact ⟨fun hnone => (by cases hnone), h.ring_ok,
        fun e he => (h.cache e he).imp id HeardIn.hear, announced_or_zero_hear _ _ _ h.new,
        announced_or_zero_hear _ _ _ h.old, announced_or_zero_hear _ _ _ h.comm,
        announced_or_zero_hear _ _ _ h.served⟩
    | ok r =>
      rw [hres] at hstep
      cases hstep
      exact h.client hexited hres
  | server io =>
    cases hmove with
    | server _ _ _ => exact { h with }
    | fail msg _ => exact { h with ring := fun hnone => by cases hnone }

end Core

/-- The event shows nothing that was not heard. -/
def Event.Genuine (g : List (List UInt8)) : Event → Prop
  | .packetPlaced _ element pkt =>
    GoodPacket pkt ∧ element.packetLen = pkt.length ∧ HeardIn g pkt
  | .chanPlaced _ text => ∃ c, AnnouncedIn g c ∧ text = chanInfoText c
  | _ => True

end SdrProxy
