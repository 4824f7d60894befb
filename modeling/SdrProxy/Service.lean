import SdrProxy.Server

/-!
# What a service of a connection does

The parts of `service_connection`, one after the other; the proofs about runs of one connection, and
about several, use these lemmas instead of the definitions.

* `PutMove` : what a call of `put_adc_data` can do (`putAdcData_spec`);
* `serviceIncoming` leaves the send ring and the history record alone, and may set the state to
  `SRVR_STATE_SENDCHAN` or `SRVR_STATE_SHUTDOWN`;
* `SwitchMove` : what the `switch` can do (`serviceState_spec`);
* `CallsSendToClient`, `sentCount` : whether `send_to_client` is called, and how many bytes it takes
  off the ring (`serviceOutgoing_cases`);
* `serviceConnection_spec`, `serviceConnection_moves` : the parts put together.
-/

namespace SdrProxy

/-! ### Packets -/

section PutAdc

variable {dataRing : DataRing} {now : ℤ} {conn : ℕ} {record : ConnHistData} {c : Conn}

/-- What a call of `put_adc_data` can do for a connection whose history record is `record`. -/
inductive PutMove (dataRing : DataRing) (now : ℤ) (conn : ℕ) (record : ConnHistData) (c : Conn) :
    ℤ → Conn → List Event → Prop
  /-- No packet is due. -/
  | nothing : (dataRing.retr record.lastPacketTime).2 = none →
      PutMove dataRing now conn record c 0 c []
  /-- The packet does not fit. -/
  | full (element : PacketInfo) (pkt : List UInt8) :
      (dataRing.retr record.lastPacketTime).2 = some (element, pkt) →
      c.data.sendRing.bytesFree < element.packetLen → PutMove dataRing now conn record c 0 c []
  /-- The packet is placed, and the record says so. -/
  | placed (element : PacketInfo) (pkt : List UInt8) :
      (dataRing.retr record.lastPacketTime).2 = some (element, pkt) →
      element.packetLen ≤ c.data.sendRing.bytesFree →
      PutMove dataRing now conn record c 1
        { data := { c.data with sendRing := (c.data.sendRing.store pkt).2 }
          hist := c.hist.modify (c.data.history.getD 0)
            { record with lastPacketTime := element.packetTime, lastUpdate := now } }
        [.packetPlaced conn element pkt]

/-- A packet that is due and fits is placed. -/
theorem putAdcData_placed {element : PacketInfo} {pkt : List UInt8} (now : ℤ) (conn : ℕ)
    (h : c.hist.deref c.data.history = .ok record)
    (hretr : (dataRing.retr record.lastPacketTime).2 = some (element, pkt))
    (hfits : element.packetLen ≤ c.data.sendRing.bytesFree) :
    putAdcData dataRing now conn c = .ok (1,
      { data := { c.data with sendRing := (c.data.sendRing.store pkt).2 }
        hist := c.hist.modify (c.data.history.getD 0)
          { record with lastPacketTime := element.packetTime, lastUpdate := now } },
      [.packetPlaced conn element pkt]) := by
  simp only [putAdcData, h, bind, Except.bind, hretr, Nat.not_lt.2 hfits, ↓reduceIte]
  rfl

/-- **What `put_adc_data` does**, for a connection with a history record. -/
theorem putAdcData_spec (dataRing : DataRing) (now : ℤ) (conn : ℕ)
    (h : c.hist.deref c.data.history = .ok record) :
    ∃ rv c' es, putAdcData dataRing now conn c = .ok (rv, c', es) ∧
      PutMove dataRing now conn record c rv c' es := by
  cases hretr : (dataRing.retr record.lastPacketTime).2 with
  | none =>
    refine ⟨0, c, [], ?_, .nothing hretr⟩
    simp only [putAdcData, h, bind, Except.bind, hretr]
    rfl
  | some found =>
    obtain ⟨element, pkt⟩ := found
    rcases Nat.lt_or_ge c.data.sendRing.bytesFree element.packetLen with hlt | hle
    · refine ⟨0, c, [], ?_, .full element pkt hretr hlt⟩
      simp only [putAdcData, h, bind, Except.bind, hretr, hlt, ↓reduceIte]
      rfl
    · exact ⟨1, _, _, putAdcData_placed now conn h hretr hle, .placed element pkt hretr hle⟩

theorem putMove_of_eq {rv : ℤ} {c' : Conn} {es : List Event}
    (h : putAdcData dataRing now conn c = .ok (rv, c', es)) :
    ∃ record, c.hist.deref c.data.history = .ok record ∧
      PutMove dataRing now conn record c rv c' es := by
  obtain ⟨record, hrec, -⟩ := bind_eq_ok.1 h
  obtain ⟨rv', c'', es', heq, hmove⟩ := putAdcData_spec dataRing now conn hrec
  rw [h] at heq
  cases heq
  exact ⟨record, hrec, hmove⟩

end PutAdc

variable {io : ServerIO} {chanInfoG : ChannelInfo} {dataRing : DataRing} {conn : ℕ}
variable {c c' : Conn} {es : List Event}

/-! ### What the client has to say -/

theorem serverRcvToRing_same (res : RecvResult) (c : ConnectionData) :
    (serverRcvToRing res c).2.sendRing = c.sendRing ∧
      (serverRcvToRing res c).2.history = c.history ∧
      (serverRcvToRing res c).2.state = c.state := by
  unfold serverRcvToRing
  dsimp only
  split_ifs
  · exact ⟨rfl, rfl, rfl⟩
  · cases res with
    | again => exact ⟨rfl, rfl, rfl⟩
    | error => exact ⟨rfl, rfl, rfl⟩
    | bytes l =>
      dsimp only
      split_ifs <;> exact ⟨rfl, rfl, rfl⟩

theorem checkServerIncoming_same (c : ConnectionData) :
    (checkServerIncoming c).2.sendRing = c.sendRing ∧
      (checkServerIncoming c).2.history = c.history ∧
      (checkServerIncoming c).2.state = c.state := by
  unfold checkServerIncoming
  dsimp only
  split_ifs <;> exact ⟨rfl, rfl, rfl⟩

/-- What the client says leaves the send ring and the history record alone, and ends the connection,
starts it again or leaves its state. -/
theorem serviceIncoming_same (io : ServerIO) (c : ConnectionData) :
    (serviceIncoming io c).sendRing = c.sendRing ∧ (serviceIncoming io c).history = c.history ∧
      ((serviceIncoming io c).state = c.state ∨
        (serviceIncoming io c).state = .SRVR_STATE_SENDCHAN ∨
        (serviceIncoming io c).state = .SRVR_STATE_SHUTDOWN) := by
  obtain ⟨hring₁, hhist₁, hstate₁⟩ := serverRcvToRing_same io.recv c
  obtain ⟨hring₂, hhist₂, hstate₂⟩ := checkServerIncoming_same (serverRcvToRing io.recv c).2
  unfold serviceIncoming
  dsimp only
  split_ifs
  · exact ⟨hring₁, hhist₁, .inr (.inr rfl)⟩
  · exact ⟨hring₂.trans hring₁, hhist₂.trans hhist₁, .inr (.inl rfl)⟩
  · exact ⟨hring₂.trans hring₁, hhist₂.trans hhist₁, .inl (hstate₂.trans hstate₁)⟩
  · exact ⟨hring₁, hhist₁, .inl hstate₁⟩
  · exact ⟨rfl, rfl, .inl rfl⟩

/-! ### The switch -/

/-- What the `switch` of `service_connection` can do. -/
inductive SwitchMove (io : ServerIO) (chanInfoG : ChannelInfo) (dataRing : DataRing) (conn : ℕ)
    (c : Conn) : Conn → List Event → Prop
  /-- `SRVR_STATE_INACTIVE`. -/
  | inactive : c.data.state = .SRVR_STATE_INACTIVE → SwitchMove io chanInfoG dataRing conn c c []
  /-- `SRVR_STATE_SHUTDOWN`. -/
  | close : c.data.state = .SRVR_STATE_SHUTDOWN → SwitchMove io chanInfoG dataRing conn c
      { c with data := { c.data with state := .SRVR_STATE_INACTIVE } } []
  /-- `SRVR_STATE_SENDCHAN` with room for the text. -/
  | text : c.data.state = .SRVR_STATE_SENDCHAN → CHANINFOLEN ≤ c.data.sendRing.bytesFree →
      SwitchMove io chanInfoG dataRing conn c { c with data := { c.data with
        sendRing := (c.data.sendRing.store ((chanInfoText chanInfoG).take CHANINFOLEN)).2
        state := .SRVR_STATE_SENDADC } }
      [.chanPlaced conn ((chanInfoText chanInfoG).take CHANINFOLEN)]
  /-- `SRVR_STATE_SENDCHAN` without room. -/
  | noRoom : c.data.state = .SRVR_STATE_SENDCHAN → c.data.sendRing.bytesFree < CHANINFOLEN →
      SwitchMove io chanInfoG dataRing conn c c []
  /-- `SRVR_STATE_SENDADC`. -/
  | adc {c' : Conn} {es : List Event} (record : ConnHistData) (rv : ℤ) :
      c.data.state = .SRVR_STATE_SENDADC → c.hist.deref c.data.history = .ok record →
      PutMove dataRing io.now conn record c rv c' es →
      SwitchMove io chanInfoG dataRing conn c c' es
  /-- `SRVR_STATE_INIT` for too long. -/
  | timeout : c.data.state = .SRVR_STATE_INIT → c.data.idleTimer ≤ 0 →
      SwitchMove io chanInfoG dataRing conn c
        { c with data := { c.data with state := .SRVR_STATE_SHUTDOWN } } []
  /-- `SRVR_STATE_INIT`. -/
  | wait : c.data.state = .SRVR_STATE_INIT → 0 < c.data.idleTimer →
      SwitchMove io chanInfoG dataRing conn c
        { c with data := { c.data with idleTimer := c.data.idleTimer - 1 } } []

/-- **What the `switch` does**, if the history record is there when it is needed. -/
theorem serviceState_spec (io : ServerIO) (chanInfoG : ChannelInfo) (dataRing : DataRing)
    (conn : ℕ) (h : c.data.state = .SRVR_STATE_SENDADC →
      ∃ record, c.hist.deref c.data.history = .ok record) :
    ∃ c' es, serviceState io chanInfoG dataRing conn c = .ok (c', es) ∧
      SwitchMove io chanInfoG dataRing conn c c' es := by
  unfold serviceState
  cases hstate : c.data.state with
  | SRVR_STATE_INACTIVE => exact ⟨_, _, rfl, .inactive hstate⟩
  | SRVR_STATE_SHUTDOWN => exact ⟨_, _, rfl, .close hstate⟩
  | SRVR_STATE_SENDCHAN =>
    rcases Nat.lt_or_ge c.data.sendRing.bytesFree CHANINFOLEN with hlt | hle
    · refine ⟨c, [], ?_, .noRoom hstate hlt⟩
      simp only [putChannelData, Nat.not_le.2 hlt, ↓reduceIte, Int.reduceNeg, neg_eq_zero,
        one_ne_zero]
    · refine ⟨_, _, ?_, .text hstate hle⟩
      simp only [putChannelData, hle, ↓reduceIte]
  | SRVR_STATE_SENDADC =>
    obtain ⟨record, hrec⟩ := h hstate
    obtain ⟨rv, c', es, heq, hmove⟩ := putAdcData_spec dataRing io.now conn hrec
    refine ⟨c', es, ?_, .adc record rv hstate hrec hmove⟩
    simp only [heq, bind, Except.bind, pure, Except.pure]
  | SRVR_STATE_INIT =>
    by_cases htimer : c.data.idleTimer ≤ 0
    · exact ⟨_, _, by simp only [htimer, ↓reduceIte], .timeout hstate htimer⟩
    · exact ⟨_, _, by simp only [htimer, ↓reduceIte], .wait hstate (not_le.1 htimer)⟩

theorem switchMove_of_eq (h : serviceState io chanInfoG dataRing conn c = .ok (c', es)) :
    SwitchMove io chanInfoG dataRing conn c c' es := by
  have hrec : c.data.state = .SRVR_STATE_SENDADC →
      ∃ record, c.hist.deref c.data.history = .ok record := by
    intro hstate
    simp only [serviceState, hstate] at h
    obtain ⟨r, hput, -⟩ := bind_eq_ok.1 h
    obtain ⟨record, hrec, -⟩ := putMove_of_eq hput
    exact ⟨record, hrec⟩
  obtain ⟨c'', es', heq, hmove⟩ := serviceState_spec io chanInfoG dataRing conn hrec
  rw [h] at heq
  cases heq
  exact hmove

/-! ### Bytes for the client -/

/-- `send_to_client` is called for a connection that the `switch` has left so. -/
def CallsSendToClient (io : ServerIO) (c : ConnectionData) : Prop :=
  c.sendRing.bytesStored ≠ 0 ∧ io.writable = true ∧
    (c.state = .SRVR_STATE_SENDCHAN ∨ c.state = .SRVR_STATE_SENDADC)

instance (io : ServerIO) (c : ConnectionData) : Decidable (CallsSendToClient io c) :=
  inferInstanceAs (Decidable (_ ∧ _ ∧ _))

/-- The `send` fails for good: not just for now. -/
def SendFails (send : SendResult) : Prop :=
  send.rv ≤ 0 ∧ send.errno ≠ .EAGAIN ∧ send.errno ≠ .EWOULDBLOCK

instance (send : SendResult) : Decidable (SendFails send) := inferInstanceAs (Decidable (_ ∧ _ ∧ _))

/-- The number of bytes that `send` takes off the ring. -/
def sentCount (io : ServerIO) (c : ConnectionData) : ℕ :=
  if CallsSendToClient io c then (min io.send.rv c.sendRing.bytesStored).toNat else 0

theorem sentCount_le (io : ServerIO) (c : ConnectionData) :
    sentCount io c ≤ c.sendRing.bytesStored := by
  unfold sentCount
  split_ifs
  · omega
  · exact Nat.zero_le _

theorem serviceOutgoing_of_call {c : ConnectionData} (h : CallsSendToClient io c) :
    serviceOutgoing io c = (sendToClient io.send c).map Prod.snd := by
  unfold serviceOutgoing
  rw [if_pos (by exact h)]
  cases sendToClient io.send c <;> rfl

theorem serviceOutgoing_of_not_call {c : ConnectionData} (h : ¬ CallsSendToClient io c) :
    serviceOutgoing io c = .ok c := by
  unfold serviceOutgoing
  rw [if_neg (by exact h)]

theorem RingSet.delete_zero (r : RingSet) : (r.delete 0).2 = r := by
  simp [delete]

/-- More bytes than `sendbfr` takes are not copied. -/
theorem sendToClient_of_overrun {send : SendResult} {c : ConnectionData}
    (h : MAXPACKETSIZE < c.sendRing.bytesStored) :
    sendToClient send c = .error "send_to_client: sendbfr overrun" := by
  simp only [sendToClient, h, ↓reduceIte]

theorem sendToClient_of_not_fails {c : ConnectionData} (hcall : CallsSendToClient io c)
    (hcopy : c.sendRing.bytesStored ≤ MAXPACKETSIZE) (h : ¬ SendFails io.send) :
    ∃ rv, sendToClient io.send c =
      .ok (rv, { c with sendRing := (c.sendRing.delete (sentCount io c)).2 }) ∧ 0 ≤ rv := by
  have hstored : 0 < c.sendRing.bytesStored := Nat.pos_of_ne_zero hcall.1
  simp only [sentCount, hcall, ↓reduceIte, sendToClient, Nat.not_lt.2 hcopy]
  split_ifs with hrv
  · -- nothing was sent, for now
    have hzero : (min io.send.rv c.sendRing.bytesStored).toNat = 0 := by omega
    refine ⟨0, ?_, le_rfl⟩
    rw [hzero, RingSet.delete_zero]
    unfold SendFails at h
    cases herr : io.send.errno with
    | EAGAIN => rfl
    | EWOULDBLOCK => rfl
    | _ => exact absurd ⟨by omega, by simp [herr], by simp [herr]⟩ h
  · exact ⟨_, rfl, by omega⟩

theorem sendToClient_of_epipe {c : ConnectionData} (hcopy : c.sendRing.bytesStored ≤ MAXPACKETSIZE)
    (h : SendFails io.send) (herr : io.send.errno = .EPIPE) :
    sendToClient io.send c = .ok (-1, c) := by
  have hrv : min io.send.rv c.sendRing.bytesStored ≤ 0 := (min_le_left _ _).trans h.1
  simp only [sendToClient, Nat.not_lt.2 hcopy, hrv, ↓reduceIte, herr]

theorem sendToClient_of_fails {c : ConnectionData}
    (hcopy : c.sendRing.bytesStored ≤ MAXPACKETSIZE) (h : SendFails io.send)
    (herr : io.send.errno ≠ .EPIPE) :
    sendToClient io.send c = .error "send_to_client: Error on sending" := by
  have hrv : min io.send.rv c.sendRing.bytesStored ≤ 0 := (min_le_left _ _).trans h.1
  obtain ⟨-, hagain, hblock⟩ := h
  simp only [sendToClient, Nat.not_lt.2 hcopy, hrv, ↓reduceIte]

/-- **What the last part does** if it comes to an end: it takes off the ring what was sent. -/
theorem serviceOutgoing_cases {c c' : ConnectionData} (h : serviceOutgoing io c = .ok c') :
    c' = { c with sendRing := (c.sendRing.delete (sentCount io c)).2 } := by
  by_cases hcall : CallsSendToClient io c
  · rw [serviceOutgoing_of_call hcall] at h
    rcases Nat.lt_or_ge MAXPACKETSIZE c.sendRing.bytesStored with hover | hcopy
    · rw [sendToClient_of_overrun hover] at h
      cases h
    by_cases hfails : SendFails io.send
    · by_cases herr : io.send.errno = .EPIPE
      · have hzero : sentCount io c = 0 := by
          have := hfails.1
          simp only [sentCount, hcall, ↓reduceIte]
          omega
        rw [sendToClient_of_epipe hcopy hfails herr] at h
        cases h
        rw [hzero, RingSet.delete_zero]
      · rw [sendToClient_of_fails hcopy hfails herr] at h
        cases h
    · obtain ⟨rv, heq, -⟩ := sendToClient_of_not_fails hcall hcopy hfails
      rw [heq] at h
      cases h
      rfl
  · rw [serviceOutgoing_of_not_call hcall] at h
    cases h
    simp only [sentCount, hcall, ↓reduceIte, RingSet.delete_zero]

/-! ### The parts together -/

/-- The connection when the `switch` looks at it. -/
def Conn.heard (io : ServerIO) (c : Conn) : Conn := { c with data := serviceIncoming io c.data }

theorem serviceConnection_inactive (h : c.data.state = .SRVR_STATE_INACTIVE) :
    serviceConnection io chanInfoG dataRing conn c = .ok (c, []) := by
  simp only [serviceConnection, h, ↓reduceIte]

/-- **What a service of an active connection does**, if the history record is there when it is
needed: the `switch`, and then the last part. -/
theorem serviceConnection_spec (io : ServerIO) (chanInfoG : ChannelInfo) (dataRing : DataRing)
    (conn : ℕ) (hactive : c.data.state ≠ .SRVR_STATE_INACTIVE)
    (hrec : ∃ record, c.hist.deref c.data.history = .ok record) :
    ∃ c₁ es, serviceState io chanInfoG dataRing conn (c.heard io) = .ok (c₁, es) ∧
      SwitchMove io chanInfoG dataRing conn (c.heard io) c₁ es ∧
      serviceConnection io chanInfoG dataRing conn c =
        (serviceOutgoing io c₁.data).map fun data => ({ c₁ with data := data }, es) := by
  have hhist : (c.heard io).data.history = c.data.history := (serviceIncoming_same io c.data).2.1
  obtain ⟨c₁, es, heq, hmove⟩ := serviceState_spec io chanInfoG dataRing conn (c := c.heard io)
    fun _ => by rw [hhist]; exact hrec
  refine ⟨c₁, es, heq, hmove, ?_⟩
  unfold serviceConnection
  rw [if_neg hactive]
  show (serviceState io chanInfoG dataRing conn (c.heard io)).bind _ = _
  rw [heq]
  show (serviceOutgoing io c₁.data).bind _ = _
  cases serviceOutgoing io c₁.data <;> rfl

theorem serviceConnection_moves (h : serviceConnection io chanInfoG dataRing conn c = .ok (c', es))
    (hactive : c.data.state ≠ .SRVR_STATE_INACTIVE) : ∃ c₁,
      serviceState io chanInfoG dataRing conn (c.heard io) = .ok (c₁, es) ∧
      SwitchMove io chanInfoG dataRing conn (c.heard io) c₁ es ∧ c'.hist = c₁.hist ∧
      c'.data = { c₁.data with
        sendRing := (c₁.data.sendRing.delete (sentCount io c₁.data)).2 } := by
  unfold serviceConnection at h
  rw [if_neg hactive] at h
  obtain ⟨⟨c₁, es₁⟩, hswitch, h⟩ := bind_eq_ok.1 h
  obtain ⟨data, hout, h⟩ := bind_eq_ok.1 h
  cases h
  exact ⟨c₁, hswitch, switchMove_of_eq hswitch, rfl, serviceOutgoing_cases hout⟩

end SdrProxy
