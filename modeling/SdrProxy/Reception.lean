import SdrProxy.Fragmentation
import SdrProxy.System

/-!
# Reception while packets are inhibited

Chunks of the stream of the remote server, each followed by a pass of `check_data`, and what becomes
of a channel info text when the passes are inhibited and empty the ring behind themselves.

* `rcvMachine` : the receive path as a machine; a run ends with a `fail`;
* `checkData_no_text`, `checkData_text` : the two things an inhibited pass can do here;
* `held` : how many bytes a pass finds, from the lengths of the chunks alone;
* `Spared` : no pass inside the text finds more than the length of a channel token;
* `text_survives_iff` : the text is accepted exactly then.
-/

namespace SdrProxy

/-- A chunk that arrives and the pass after it. -/
structure Incoming where
  /-- The bytes. -/
  chunk : List UInt8
  /-- `inhibit_adc` of the pass. -/
  inhibitAdc : Bool
  /-- What `rcv_bfr` of `get_adc_data` holds in each turn of the pass. -/
  junk : ℕ → Bfr

/-- `RING_STORE` of the chunk on the receive ring and `check_data`. -/
def Incoming.receive (d : Incoming) (p : RcvPath) : Except String (RcvPath × List RcvEvent) :=
  checkData d.inhibitAdc d.junk { p with ring := (p.ring.store d.chunk).2 }

/-- The receive path as a machine.  `client_rcv_to_ring` asks for no more bytes than there is room
for. -/
def rcvMachine : Machine RcvPath Incoming RcvEvent where
  step p d := if d.chunk.length ≤ p.ring.bytesFree then (d.receive p).toOption else none

/-- The bytes that arrive. -/
def delivered (ds : List Incoming) : List UInt8 := (ds.map Incoming.chunk).flatten

variable {p p' : RcvPath} {d : Incoming} {ds : List Incoming} {es events : List RcvEvent}

theorem rcvMachine_step : rcvMachine.step p d = some (p', es) ↔
    d.chunk.length ≤ p.ring.bytesFree ∧ d.receive p = .ok (p', es) := by
  simp only [rcvMachine]
  split_ifs with hfits
  · cases d.receive p <;> simp [Except.toOption, hfits]
  · simp [hfits]

/-- An inhibited delivery. -/
theorem rcvMachine_step_inhibited (hinh : d.inhibitAdc = true)
    (hfits : d.chunk.length ≤ p.ring.bytesFree)
    (hrun : checkData true d.junk { p with ring := (p.ring.store d.chunk).2 } = .ok (p', es)) :
    rcvMachine.step p d = some (p', es) := by
  refine rcvMachine_step.2 ⟨hfits, ?_⟩
  rw [Incoming.receive, hinh]
  exact hrun

theorem delivered_append_singleton (ds : List Incoming) (d : Incoming) :
    delivered (ds ++ [d]) = delivered ds ++ d.chunk := by
  simp [delivered]

/-! ### Inhibited passes -/

section Inhibited

variable {u text : List UInt8} {c : ChannelInfo}

theorem turn_inhibited {s : List UInt8} (h : chanAt s = none) :
    turn true s = some ⟨false, s, none⟩ := turn_eq_none h rfl

theorem checkData_no_text (junk : ℕ → Bfr) (h : chanAt p.ring.contents = none) : ∃ p' events,
    checkData true junk p = .ok (p', events) ∧
      p'.ring.contents = purged true p.ring.contents ∧ p'.ring.bfrsize = p.ring.bfrsize ∧
      p'.newChanInfo = p.newChanInfo := by
  obtain ⟨p₁, events, hloop, hagrees⟩ := checkDataLoop_stop (turn_inhibited h) rfl
  refine ⟨{ p₁ with ring := purge true p₁.ring }, events, ?_, ?_, ?_, ?_⟩
  · rw [checkData, hloop]
    rfl
  · rw [contents_purge, hagrees.contents]
  · rw [bfrsize_purge, hagrees.bfrsize]
  · cases hagrees.handed with
    | none hinfo => exact hinfo

/-- A text at the first token is accepted, and nothing is left behind it. -/
theorem checkData_text (junk : ℕ → Bfr) (hcont : p.ring.contents = u ++ text)
    (hfirst : findSub CHANTOKEN (u ++ text) = some u.length) (htext : ValidText text c) :
    ∃ p' events, checkData true junk p = .ok (p', events) ∧ p'.ring.contents = [] ∧
      p'.ring.bfrsize = p.ring.bfrsize ∧ p'.newChanInfo = c := by
  have hturn : turn true p.ring.contents = some ⟨true, [], some (.chan c)⟩ := by
    have hplace := htext.chanTextAt u []
    have htake := htext.chanTurn []
    rw [List.append_nil] at hplace htake
    rw [hcont, turn_eq_chan (chanAt_eq_some.2 ⟨hfirst, hplace⟩) (by simp [adcAt]), List.drop_left,
      htake]
  obtain ⟨fuel, hfuel⟩ : ∃ fuel, p.ring.bytesStored = fuel + 1 := by
    have hlen := RingSet.length_contents p.ring
    have h25 : CHANINFOLEN = 25 := rfl
    rw [hcont, List.length_append, htext.length_eq] at hlen
    exact ⟨p.ring.bytesStored - 1, by omega⟩
  obtain ⟨p₁, events₁, hagrees, hgo⟩ := checkDataLoop_go hturn rfl
  -- the second turn finds an empty ring
  have hcont₁ : p₁.ring.contents = [] := hagrees.contents
  have hnone : chanAt p₁.ring.contents = none := by
    rw [hcont₁]
    rfl
  obtain ⟨p₂, events₂, hloop, hagrees₂⟩ := checkDataLoop_stop (turn_inhibited hnone) rfl
  refine ⟨{ p₂ with ring := purge true p₂.ring }, events₁ ++ events₂, ?_, ?_, ?_, ?_⟩
  · rw [checkData, hfuel, hgo _ _ _ hloop]
    rfl
  · rw [contents_purge, hagrees₂.contents, hcont₁]
    rfl
  · rw [bfrsize_purge, hagrees₂.bfrsize, hagrees.bfrsize]
  · cases hagrees.handed with
    | chan _ hinfo =>
      cases hagrees₂.handed with
      | none hinfo₂ => exact hinfo₂.trans hinfo

end Inhibited

/-! ### What the lengths of the chunks say -/

/-- How many bytes stay on the ring after an inhibited pass that finds `n` of them and no text. -/
def keptBytes (n : ℕ) : ℕ := if CHANTOKEN.length < n then 0 else n

/-- How many bytes the last one of inhibited passes finds on the ring, if none of them finds a
text. -/
def held (ds : List Incoming) : ℕ := ds.foldl (fun n d => keptBytes n + d.chunk.length) 0

theorem held_append_singleton (ds : List Incoming) (d : Incoming) :
    held (ds ++ [d]) = keptBytes (held ds) + d.chunk.length := by
  rw [held, List.foldl_append]
  rfl

theorem keptBytes_le (n : ℕ) : keptBytes n ≤ n := by
  unfold keptBytes
  split_ifs <;> omega

theorem keptBytes_of_le {n : ℕ} (h : n ≤ CHANTOKEN.length) : keptBytes n = n := by
  rw [keptBytes, if_neg (by omega)]

theorem keptBytes_of_lt {n : ℕ} (h : CHANTOKEN.length < n) : keptBytes n = 0 := by
  rw [keptBytes, if_pos h]

theorem purged_true (s : List UInt8) : purged true s = s.drop (s.length - keptBytes s.length) := by
  unfold purged keptBytes
  simp only [true_and]
  split_ifs with h
  · rw [Nat.sub_zero, List.drop_length]
  · rw [Nat.sub_self, List.drop_zero]

/-- No pass between the first and the last byte of the text finds more bytes than a channel token
has; `before` is the number of the bytes in front of the text. -/
def Spared (before : ℕ) (ds : List Incoming) : Prop :=
  ∀ ds₁, ds₁ <+: ds → before < (delivered ds₁).length →
    (delivered ds₁).length < before + CHANINFOLEN → held ds₁ ≤ CHANTOKEN.length

theorem spared_append_singleton (before : ℕ) (ds : List Incoming) (d : Incoming) :
    Spared before (ds ++ [d]) ↔ Spared before ds ∧
    (before < (delivered (ds ++ [d])).length →
      (delivered (ds ++ [d])).length < before + CHANINFOLEN →
      held (ds ++ [d]) ≤ CHANTOKEN.length) := by
  simp only [Spared, List.prefix_concat_iff]
  constructor
  · intro h
    exact ⟨fun ds₁ hp => h ds₁ (.inr hp), h _ (.inl rfl)⟩
  · rintro ⟨h, hlast⟩ ds₁ (rfl | hp)
    · exact hlast
    · exact h ds₁ hp

/-! ### A text that arrives in pieces -/

section Text

variable {pre text : List UInt8} {c : ChannelInfo} {q : ℕ}

/-- A delivery that completes no text. -/
theorem step_no_text (hinh : d.inhibitAdc = true) (hfits : d.chunk.length ≤ p.ring.bytesFree)
    (hring : p.ring.contents = (delivered ds).drop q)
    (hq : q + keptBytes (held ds) = (delivered ds).length)
    (hnone : chanAt ((delivered (ds ++ [d])).drop q) = none) : ∃ p' es q',
      rcvMachine.step p d = some (p', es) ∧ p'.ring.bfrsize = p.ring.bfrsize ∧
        p'.newChanInfo = p.newChanInfo ∧ p'.ring.contents = (delivered (ds ++ [d])).drop q' ∧
        q' + keptBytes (held (ds ++ [d])) = (delivered (ds ++ [d])).length ∧ q ≤ q' ∧
        (held (ds ++ [d]) ≤ CHANTOKEN.length → q' = q) := by
  have hstore : (p.ring.store d.chunk).2.contents = (delivered (ds ++ [d])).drop q := by
    rw [RingSet.contents_store hfits, hring, delivered_append_singleton,
      List.drop_append_of_le_length (by omega)]
  have hlen : ((delivered (ds ++ [d])).drop q).length = held (ds ++ [d]) := by
    rw [held_append_singleton, List.length_drop, delivered_append_singleton, List.length_append]
    omega
  have htotal : (delivered (ds ++ [d])).length = (delivered ds).length + d.chunk.length := by
    rw [delivered_append_singleton, List.length_append]
  have hkept := keptBytes_le (held (ds ++ [d]))
  have hheld := held_append_singleton ds d
  obtain ⟨p', es, hrun, hcont, hsize, hinfo⟩ := checkData_no_text d.junk
    (p := { p with ring := (p.ring.store d.chunk).2 }) (by rw [hstore]; exact hnone)
  refine ⟨p', es, q + (held (ds ++ [d]) - keptBytes (held (ds ++ [d]))),
    rcvMachine_step_inhibited hinh hfits hrun, ?_, hinfo, ?_, by omega, by omega, ?_⟩
  · rw [hsize, RingSet.bfrsize_store]
  · rw [hcont, hstore, purged_true, hlen, List.drop_drop]
  · intro hle
    rw [keptBytes_of_le hle, Nat.sub_self, Nat.add_zero]

theorem unbordered_chanToken : Unbordered CHANTOKEN := by decide

theorem findSub_text (hpre : findSub CHANTOKEN pre = none) (htext : ValidText text c)
    (hq : q ≤ pre.length) :
    (pre ++ text).drop q = pre.drop q ++ text ∧
      findSub CHANTOKEN (pre.drop q ++ text) = some (pre.drop q).length :=
  ⟨List.drop_append_of_le_length hq,
    unbordered_chanToken.findSub_append (findSub_drop_eq_none hpre q) htext.token⟩

/-- No text is found before the last byte of the text has arrived. -/
theorem chanAt_eq_none_of_isPrefixOf {s : List UInt8} (hpre : findSub CHANTOKEN pre = none)
    (htext : ValidText text c) (hs : s <+: pre ++ text)
    (hlt : s.length < pre.length + CHANINFOLEN) (hq : q ≤ pre.length) (hqs : q ≤ s.length) :
    chanAt (s.drop q) = none := by
  obtain ⟨rest, hrest⟩ := hs
  refine Option.eq_none_iff_forall_ne_some.2 ?_
  intro i hi
  obtain ⟨hfirst, hroom, -⟩ := chanAt_eq_some.1 hi
  obtain ⟨hdrop, hfind⟩ := findSub_text hpre htext hq
  -- a token there would be that of the text
  have hsame : findSub CHANTOKEN (s.drop q ++ rest) = some i := findSub_append_left hfirst
  rw [← List.drop_append_of_le_length hqs, hrest, hdrop, hfind, Option.some.injEq,
    List.length_drop] at hsame
  rw [List.length_drop] at hroom
  omega

theorem step_text (hinh : d.inhibitAdc = true) (hfits : d.chunk.length ≤ p.ring.bytesFree)
    (hpre : findSub CHANTOKEN pre = none) (htext : ValidText text c)
    (hring : p.ring.contents = (delivered ds).drop q) (hq : q ≤ pre.length)
    (hqs : q ≤ (delivered ds).length) (hall : delivered (ds ++ [d]) = pre ++ text) :
    ∃ p' es, rcvMachine.step p d = some (p', es) ∧ p'.ring.bfrsize = p.ring.bfrsize ∧
      p'.ring.contents = [] ∧ p'.newChanInfo = c := by
  obtain ⟨hdrop, hfind⟩ := findSub_text hpre htext hq
  have hstore : (p.ring.store d.chunk).2.contents = pre.drop q ++ text := by
    rw [RingSet.contents_store hfits, hring, ← List.drop_append_of_le_length hqs,
      ← delivered_append_singleton, hall, hdrop]
  obtain ⟨p', es, hrun, hcont, hsize, hinfo⟩ := checkData_text d.junk
    (p := { p with ring := (p.ring.store d.chunk).2 }) hstore hfind htext
  refine ⟨p', es, rcvMachine_step_inhibited hinh hfits hrun, ?_, hcont, hinfo⟩
  rw [hsize, RingSet.bfrsize_store]

/-- Where the receive path is when `ds`, a beginning of the stream `pre ++ text`, has arrived.  Of
the bytes that arrived the first `q` are no longer on the ring. -/
inductive After (p : RcvPath) (pre text : List UInt8) (c : ChannelInfo) (ds : List Incoming)
    (p' : RcvPath) : Prop
  /-- The text was accepted. -/
  | taken : delivered ds = pre ++ text → Spared pre.length ds → p'.ring.contents = [] →
      p'.newChanInfo = c → After p pre text c ds p'
  /-- The text is still to come, and none of its bytes is gone. -/
  | waiting (q : ℕ) : (delivered ds).length < pre.length + CHANINFOLEN → Spared pre.length ds →
      q ≤ pre.length → p'.ring.contents = (delivered ds).drop q →
      q + keptBytes (held ds) = (delivered ds).length → p'.newChanInfo = p.newChanInfo →
      After p pre text c ds p'
  /-- Bytes of the text are gone. -/
  | lost (q : ℕ) : ¬ Spared pre.length ds → pre.length < q →
      p'.ring.contents = (delivered ds).drop q →
      q + keptBytes (held ds) = (delivered ds).length → p'.newChanInfo = p.newChanInfo →
      After p pre text c ds p'

variable {p₀ : RcvPath}

/-- What the lengths of the chunks say about the room on the ring. -/
theorem length_le_bytesFree (hring : p.ring.contents = (delivered ds).drop q)
    (hqk : q + keptBytes (held ds) = (delivered ds).length)
    (hfits : held (ds ++ [d]) < p.ring.bfrsize) : d.chunk.length ≤ p.ring.bytesFree := by
  have hsum := RingSet.bytesStored_add_bytesFree p.ring
  have hstored := RingSet.length_contents p.ring
  rw [hring, List.length_drop] at hstored
  rw [held_append_singleton] at hfits
  omega

theorem step_nothing (hinh : d.inhibitAdc = true) (hnil : p.ring.contents = [])
    (hchunk : d.chunk = []) : ∃ p' es, rcvMachine.step p d = some (p', es) ∧
      p'.ring.bfrsize = p.ring.bfrsize ∧ p'.ring.contents = [] ∧
      p'.newChanInfo = p.newChanInfo := by
  have hfree : d.chunk.length ≤ p.ring.bytesFree := by
    rw [hchunk]
    exact Nat.zero_le _
  have hcont : (p.ring.store d.chunk).2.contents = [] := by
    rw [RingSet.contents_store hfree, hnil, hchunk]
    rfl
  obtain ⟨p', es, hrun, hcont', hsize, hinfo⟩ := checkData_no_text d.junk
    (p := { p with ring := (p.ring.store d.chunk).2 }) (by rw [hcont]; rfl)
  refine ⟨p', es, rcvMachine_step_inhibited hinh hfree hrun, ?_, ?_, hinfo⟩
  · rw [hsize, RingSet.bfrsize_store]
  · rw [hcont', hcont]
    rfl

/-- What a delivery inside the stream leaves: `q` bytes were gone before the pass, `q'` are gone
after it. -/
theorem After.of_step {q' : ℕ} (hsp : Spared pre.length ds) (hq : q ≤ pre.length)
    (hlt : (delivered (ds ++ [d])).length < pre.length + CHANINFOLEN)
    (hring : p'.ring.contents = (delivered (ds ++ [d])).drop q')
    (hqk : q' + keptBytes (held (ds ++ [d])) = (delivered (ds ++ [d])).length)
    (hkeep : held (ds ++ [d]) ≤ CHANTOKEN.length → q' = q)
    (hinfo : p'.newChanInfo = p.newChanInfo) : After p pre text c (ds ++ [d]) p' := by
  have hspared := spared_append_singleton pre.length ds d
  by_cases hnow : held (ds ++ [d]) ≤ CHANTOKEN.length
  · exact .waiting q' hlt (hspared.2 ⟨hsp, fun _ _ => hnow⟩) (by rw [hkeep hnow]; exact hq) hring
      hqk hinfo
  · -- the ring is emptied: the bytes in front of the text are gone, or bytes of the text
    have hall : q' = (delivered (ds ++ [d])).length := by
      rwa [keptBytes_of_lt (Nat.not_le.1 hnow)] at hqk
    rcases Nat.lt_or_ge pre.length (delivered (ds ++ [d])).length with hin | hfront
    · have hnot : ¬ Spared pre.length (ds ++ [d]) := fun h => hnow ((hspared.1 h).2 hin hlt)
      exact .lost q' hnot (by omega) hring hqk hinfo
    · have hsp' : Spared pre.length (ds ++ [d]) := hspared.2 ⟨hsp, fun hin _ => by omega⟩
      exact .waiting q' hlt hsp' (by omega) hring hqk hinfo

/-- **A delivery of the stream.** -/
theorem After.step (h : After p₀ pre text c ds p) (hpre : findSub CHANTOKEN pre = none)
    (htext : ValidText text c) (hinh : d.inhibitAdc = true)
    (hstream : delivered (ds ++ [d]) <+: pre ++ text)
    (hfits : held (ds ++ [d]) < p.ring.bfrsize) : ∃ p' es, rcvMachine.step p d = some (p', es) ∧
      p'.ring.bfrsize = p.ring.bfrsize ∧ After p₀ pre text c (ds ++ [d]) p' := by
  have hlen := hstream.length_le
  have htotal : (delivered (ds ++ [d])).length = (delivered ds).length + d.chunk.length := by
    rw [delivered_append_singleton, List.length_append]
  have hend : (pre ++ text).length = pre.length + CHANINFOLEN := by
    rw [List.length_append, htext.length_eq]
  have hspared := spared_append_singleton pre.length ds d
  cases h with
  | taken hall hsp hnil hinfo =>
    -- nothing more arrives
    have hchunk : d.chunk = [] := by
      rw [← List.length_eq_zero_iff]
      rw [hall] at htotal
      omega
    have hall' : delivered (ds ++ [d]) = pre ++ text := by
      rw [delivered_append_singleton, hall, hchunk, List.append_nil]
    obtain ⟨p', es, hrun, hsize, hnil', hinfo'⟩ := step_nothing hinh hnil hchunk
    have hsp' : Spared pre.length (ds ++ [d]) := hspared.2 ⟨hsp, fun _ hlt => by
      rw [hall'] at hlt
      omega⟩
    exact ⟨p', es, hrun, hsize, .taken hall' hsp' hnil' (hinfo'.trans hinfo)⟩
  | waiting q hlt hsp hq hring hqk hinfo =>
    have hfree := length_le_bytesFree hring hqk hfits
    rcases Nat.lt_or_ge (delivered (ds ++ [d])).length (pre.length + CHANINFOLEN) with hlt' | hge
    · -- the text is not complete yet
      have hnone := chanAt_eq_none_of_isPrefixOf hpre htext hstream hlt' hq
        (by omega : q ≤ (delivered (ds ++ [d])).length)
      obtain ⟨p', es, q', hrun, hsize, hinfo', hring', hqk', -, hkeep⟩ :=
        step_no_text hinh hfree hring hqk hnone
      exact ⟨p', es, hrun, hsize, .of_step hsp hq hlt' hring' hqk' hkeep (hinfo'.trans hinfo)⟩
    · have hall : delivered (ds ++ [d]) = pre ++ text := hstream.eq_of_length_le (by omega)
      obtain ⟨p', es, hrun, hsize, hnil, hinfo'⟩ :=
        step_text hinh hfree hpre htext hring hq (by omega) hall
      exact ⟨p', es, hrun, hsize, .taken hall (hspared.2 ⟨hsp, fun _ _ => by omega⟩) hnil hinfo'⟩
  | lost q hsp hq hring hqk hinfo =>
    have hnone : chanAt ((delivered (ds ++ [d])).drop q) = none := by
      apply chanAt_eq_none_of_length
      rw [List.length_drop]
      omega
    obtain ⟨p', es, q', hrun, hsize, hinfo', hring', hqk', hle, -⟩ :=
      step_no_text hinh (length_le_bytesFree hring hqk hfits) hring hqk hnone
    have hsp' : ¬ Spared pre.length (ds ++ [d]) := fun h => hsp (hspared.1 h).1
    exact ⟨p', es, hrun, hsize, .lost q' hsp' (by omega) hring' hqk' (hinfo'.trans hinfo)⟩

/-- **All deliveries of a beginning of the stream.** -/
theorem After.run (hpre : findSub CHANTOKEN pre = none) (htext : ValidText text c)
    (hempty : p.ring.contents = []) (hinh : ∀ d ∈ ds, d.inhibitAdc = true)
    (hstream : delivered ds <+: pre ++ text)
    (hfits : ∀ ds₁, ds₁ <+: ds → held ds₁ < p.ring.bfrsize) : ∃ p' es,
      rcvMachine.run p ds = some (p', es) ∧ p'.ring.bfrsize = p.ring.bfrsize ∧
        After p pre text c ds p' := by
  induction ds using List.reverseRecOn with
  | nil =>
    refine ⟨p, [], rfl, rfl, .waiting 0 ?_ ?_ (Nat.zero_le _) ?_ rfl rfl⟩
    · have h25 : CHANINFOLEN = 25 := rfl
      simp only [delivered, List.map_nil, List.flatten_nil, List.length_nil]
      omega
    · intro ds₁ hp hlt
      rw [List.prefix_nil.1 hp] at hlt
      exact absurd hlt (Nat.not_lt_zero _)
    · rw [hempty]
      rfl
  | append_singleton ds d ih =>
    have hbefore : delivered ds <+: pre ++ text := by
      refine List.IsPrefix.trans ?_ hstream
      rw [delivered_append_singleton]
      exact List.prefix_append _ _
    obtain ⟨p₁, es₁, hrun, hsize, hafter⟩ := ih (fun d' hd' => hinh d' (by simp [hd'])) hbefore
      fun ds₁ hp => hfits ds₁ (hp.trans (List.prefix_append _ _))
    obtain ⟨p', es, hstep, hsize', hafter'⟩ := hafter.step hpre htext (hinh d (by simp)) hstream
      (by rw [hsize]; exact hfits _ (List.prefix_refl _))
    exact ⟨p', es₁ ++ es, Machine.run_append hrun (Machine.run_singleton hstep),
      hsize'.trans hsize, hafter'⟩

/-- **When a text survives inhibited reception.**  Bytes without a channel token and a valid text
arrive in any chunks that fit, with an inhibited pass after each.  The passes go through, and the
text is accepted exactly if no pass between its first and its last byte finds more bytes on the ring
than a channel token has; else `new_chan_info` stays what it was. -/
theorem text_survives_iff (hpre : findSub CHANTOKEN pre = none) (htext : ValidText text c)
    (hempty : p.ring.contents = []) (hinh : ∀ d ∈ ds, d.inhibitAdc = true)
    (hstream : delivered ds = pre ++ text)
    (hfits : ∀ ds₁, ds₁ <+: ds → held ds₁ < p.ring.bfrsize) : ∃ p' es,
      rcvMachine.run p ds = some (p', es) ∧
        (p'.newChanInfo = c ↔ Spared pre.length ds ∨ p.newChanInfo = c) := by
  have hbegin : delivered ds <+: pre ++ text := hstream ▸ List.prefix_refl _
  obtain ⟨p', es, hrun, -, hafter⟩ := After.run hpre htext hempty hinh hbegin hfits
  refine ⟨p', es, hrun, ?_⟩
  cases hafter with
  | taken _ hsp _ hinfo => exact ⟨fun _ => .inl hsp, fun _ => hinfo⟩
  | waiting q hlt =>
    rw [hstream, List.length_append, htext.length_eq] at hlt
    omega
  | lost q hsp _ _ _ hinfo =>
    rw [hinfo]
    exact ⟨.inr, fun h => h.resolve_left hsp⟩

end Text

/-- A receive path on which nothing has arrived. -/
def quietPath : RcvPath where
  ring := .alloc BFRSIZE fun _ => 0
  newChanInfo := .zero
  dataRing := .alloc (sdrPktSize .zero) fun _ => ⟨⟨0, 0, 0, false⟩, fun _ => 0⟩

/-- An inhibited delivery. -/
def Incoming.inhibited (chunk : List UInt8) : Incoming := ⟨chunk, true, fun _ _ => 0⟩

/-- A text cut behind its tenth byte. -/
def cutText : List Incoming :=
  [.inhibited ((chanInfoText ⟨100, 4, 1⟩).take 10), .inhibited ((chanInfoText ⟨100, 4, 1⟩).drop 10)]

/-- It is lost. -/
theorem cutText_lost : ValidText (chanInfoText ⟨100, 4, 1⟩) ⟨100, 4, 1⟩ ∧
    delivered cutText = chanInfoText ⟨100, 4, 1⟩ ∧
    (rcvMachine.run quietPath cutText).map (fun r => r.1.newChanInfo) = some .zero :=
  ⟨validText_chanInfoText (by decide), by decide +kernel, by decide +kernel⟩

/-- A text that arrives at once. -/
theorem wholeText_survives : ∃ p' es,
    rcvMachine.run quietPath [.inhibited (chanInfoText ⟨100, 4, 1⟩)] = some (p', es) ∧
      (p'.newChanInfo = ⟨100, 4, 1⟩ ↔
        Spared ([] : List UInt8).length [.inhibited (chanInfoText ⟨100, 4, 1⟩)] ∨
          quietPath.newChanInfo = ⟨100, 4, 1⟩) := by
  refine text_survives_iff (by decide) (validText_chanInfoText (by decide))
    (RingSet.contents_alloc _ _) ?_ ?_ ?_
  · intro d hd
    rw [List.mem_singleton.1 hd]
    rfl
  · rfl
  · intro ds₁ hp
    rcases List.prefix_concat_iff.1 (show ds₁ <+: [] ++ [_] from hp) with rfl | hnil
    · decide +kernel
    · rw [List.prefix_nil.1 hnil]
      decide

end SdrProxy
