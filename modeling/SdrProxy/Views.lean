import SdrProxy.SharedData

/-!
# Reading first and writing later

A thread reads shared data at one moment and changes them at a later one.  Here a step goes by what
was read before it (`Core.finish`), whatever is there when it is taken, and leaves the shared data
that it does not change as they are by then.

* `Seen` : what a thread has read;
* `Core.finish_look` : a step that goes by what is there is a step of `proxy`;
* `Core.like_finish` : what a step on what was read depends on.
-/

namespace SdrProxy

/-- What a thread has read of the shared data. -/
def Seen : Type := (x : Shared) → Option (Place.shared x).Value

namespace Core

/-- What a thread reads before its step: what the step touches, but for `chan_info_g`, which it
reads as it takes the step. -/
def look (s : Core) (l : Label) : Seen := fun x =>
  if x ∈ s.touches l ∧ x ≠ .chanInfo then some ((Place.shared x).value s) else none

/-- There is something to read before the step. -/
def looks (s : Core) (l : Label) : Bool := (s.touches l).any (· ≠ .chanInfo)

/-- The state, with what was read in place of what is there now. -/
def withSeen (s : Core) (v : Seen) : Core :=
  { s with
    comm := (v .clientComm).elim s.comm fun r => ⟨r.1, s.comm.clientNo, r.2⟩
    serverClose := (v .serverComm).getD s.serverClose
    dataRing := (v .dataStore).getD s.dataRing }

/-- The state after a step, but for the shared data that it does not change. -/
def keep (s : Core) (altered : List Shared) (s' : Core) : Core :=
  { s' with
    comm := if .clientComm ∈ altered then s'.comm else s.comm
    chanInfoG := if .chanInfo ∈ altered then s'.chanInfoG else s.chanInfoG
    serverClose := if .serverComm ∈ altered then s'.serverClose else s.serverClose
    dataRing := if .dataStore ∈ altered then s'.dataRing else s.dataRing }

/-- A step that goes by what was read; the end of the program writes nothing. -/
def finish (s : Core) (v : Seen) (l : Label) : Option (Core × List Event) :=
  ((s.withSeen v).step l).map fun (s', events) =>
    (s.keep (if s'.exited.isSome then [] else s.alters l) s', events)

variable {s s' t : Core} {l : Label} {es : List Event} {v : Seen} {x : Shared}

theorem look_congr (htouches : t.touches l = s.touches l) (h : ∀ x ∈ s.touches l, x ≠ .chanInfo →
    (Place.shared x).value t = (Place.shared x).value s) : t.look l = s.look l := by
  funext x
  unfold look
  rw [htouches]
  split_ifs with hx
  · rw [h x hx.1 hx.2]
  · rfl

@[simp] theorem touches_withSeen : (s.withSeen v).touches l = s.touches l := by cases l <;> rfl

theorem reads_withSeen : (s.withSeen v).reads l = s.reads l := by
  unfold reads
  rw [touches_withSeen]
  rfl

theorem clientNo_withSeen : (s.withSeen v).comm.clientNo = s.comm.clientNo := by
  show ((v .clientComm).elim s.comm _).clientNo = _
  cases v .clientComm <;> rfl

theorem value_withSeen_shared (hx : x ≠ .chanInfo) :
    (Place.shared x).value (s.withSeen v) = (v x).getD ((Place.shared x).value s) := by
  cases x with
  | chanInfo => exact absurd rfl hx
  | serverComm | dataStore => rfl
  | clientComm =>
    show (((v .clientComm).elim s.comm _).chanChange, ((v .clientComm).elim s.comm _).chanInfo) = _
    cases v .clientComm <;> rfl

/-- Where two states have the same value they have it with the same data read. -/
theorem value_withSeen_congr {p : Place} (h : p.value t = p.value s) :
    p.value (t.withSeen v) = p.value (s.withSeen v) := by
  cases p with
  | mainThread | clientThread | serverThread | exited => exact h
  | clientNo =>
    show (t.withSeen v).comm.clientNo = (s.withSeen v).comm.clientNo
    rw [clientNo_withSeen, clientNo_withSeen]
    exact h
  | shared x =>
    by_cases hx : x = .chanInfo
    · subst hx
      exact h
    · rw [value_withSeen_shared hx, value_withSeen_shared hx, h]

theorem withSeen_look : s.withSeen (s.look l) = s := by
  refine ext_value ?_
  intro p
  cases p with
  | mainThread | clientThread | serverThread | exited => rfl
  | clientNo => exact clientNo_withSeen
  | shared x =>
    by_cases hx : x = .chanInfo
    · subst hx
      rfl
    · rw [value_withSeen_shared hx, look]
      split_ifs <;> rfl

theorem value_keep_shared {altered : List Shared} : (Place.shared x).value (s.keep altered s') =
    if x ∈ altered then (Place.shared x).value s' else (Place.shared x).value s := by
  cases x with
  | chanInfo | serverComm | dataStore => rfl
  | clientComm =>
    show ((if _ then s'.comm else s.comm).chanChange, (if _ then s'.comm else s.comm).chanInfo) = _
    split_ifs <;> rfl

theorem shared_mem_writes (h : proxy.step s l = some (s', es)) :
    Place.shared x ∈ s.writes l ↔ s'.exited = none ∧ x ∈ s.touches l := by
  have hown : Place.shared x ≠ l.thread.place := by cases l <;> nofun
  have hends : s.ends l = s'.exited.isSome := by
    rw [ends, h]
    rfl
  unfold writes
  rw [hends]
  cases s'.exited <;> simp [hown]

theorem clientNo_of_step (h : proxy.step s l = some (s', es)) :
    s'.comm.clientNo = s.comm.clientNo := by
  refine frame_of_step (p := .clientNo) h ?_
  have hown : Place.clientNo ≠ l.thread.place := by cases l <;> nofun
  simp [writes, hown]

theorem clientNo_keep {altered : List Shared} (h : s'.comm.clientNo = s.comm.clientNo) :
    (s.keep altered s').comm.clientNo = s.comm.clientNo := by
  show (if _ then s'.comm else s.comm).clientNo = _
  split_ifs
  · exact h
  · rfl

theorem shared_of_step (h : proxy.step s l = some (s', es))
    (hx : x ∉ if s'.exited.isSome then [] else s.alters l) :
    (Place.shared x).value s' = (Place.shared x).value s := by
  split_ifs at hx with hexited
  · refine frame_of_step h ?_
    have hends : s.ends l = true := by
      rw [ends, h]
      exact hexited
    simp [writes, hends]
  · exact value_of_same (changes_of_step h hx)

/-- **A step that goes by what is there** is a step of `proxy`. -/
theorem finish_look : s.finish (s.look l) l = proxy.step s l := by
  unfold finish
  rw [withSeen_look]
  show (proxy.step s l).map _ = _
  cases hstep : proxy.step s l with
  | none => rfl
  | some r =>
    obtain ⟨s', es⟩ := r
    refine congrArg some (Prod.ext (ext_value ?_) rfl)
    intro p
    cases p with
    | mainThread | clientThread | serverThread | exited => rfl
    | clientNo => exact (clientNo_keep (clientNo_of_step hstep)).trans (clientNo_of_step hstep).symm
    | shared x =>
      dsimp only
      rw [value_keep_shared]
      by_cases hx : x ∈ if s'.exited.isSome then [] else s.alters l
      · rw [if_pos hx]
      · rw [if_neg hx, shared_of_step hstep hx]

/-- A step on what was read depends on that and on what a step reads. -/
theorem like_finish (h : ∀ p ∈ s.reads l, p.value t = p.value s) (v : Seen) :
    Machine.Mirrors (fun s' t' => ∀ p, (p ∈ (s.withSeen v).writes l → p.value t' = p.value s') ∧
      (p ∉ (s.withSeen v).writes l → p.value t' = p.value t)) (s.finish v l) (t.finish v l) := by
  have hreads : ∀ p ∈ (s.withSeen v).reads l, p.value (t.withSeen v) = p.value (s.withSeen v) := by
    intro p hp
    rw [reads_withSeen] at hp
    exact value_withSeen_congr (h p hp)
  have hspec := footprint.spec (s.withSeen v) (t.withSeen v) l hreads
  have halters : t.alters l = s.alters l := by
    have hown : l.thread.place.value t = l.thread.place.value s := h _ (.inr (.inl rfl))
    cases l with
    | main io => exact congrArg (fun w : MainPc × Bool => w.1.alters) hown
    | client io => exact congrArg ClientThread.alters hown
    | server io =>
      exact congrArg (fun w : Option ServerThread => w.elim [] ServerThread.alters) hown
  unfold finish
  show Machine.Mirrors _ ((proxy.step (s.withSeen v) l).map _) ((proxy.step (t.withSeen v) l).map _)
  cases hs : proxy.step (s.withSeen v) l with
  | none =>
    rw [hs] at hspec
    cases ht : proxy.step (t.withSeen v) l with
    | none => exact .none
    | some r => rw [ht] at hspec; cases hspec
  | some r =>
    obtain ⟨s', es⟩ := r
    rw [hs] at hspec
    cases ht : proxy.step (t.withSeen v) l with
    | none => rw [ht] at hspec; cases hspec
    | some r' =>
      obtain ⟨t', fs⟩ := r'
      rw [ht] at hspec
      obtain ⟨hval, hes⟩ : (∀ p, (p ∈ (s.withSeen v).writes l → p.value t' = p.value s') ∧
          (p ∉ (s.withSeen v).writes l → p.value t' = p.value (t.withSeen v))) ∧ es = fs := by
        cases hspec
        assumption
      -- what is read stays the same
      have hsame : ∀ p ∈ s.reads l, p.value t' = p.value s' := by
        intro p hp
        by_cases hw : p ∈ (s.withSeen v).writes l
        · exact (hval p).1 hw
        · rw [(hval p).2 hw, frame_of_step hs hw]
          exact value_withSeen_congr (h p hp)
      have hexited : t'.exited = s'.exited := hsame .exited (.inl rfl)
      refine .some ⟨?_, hes⟩
      dsimp only
      rw [hexited, halters]
      intro p
      cases p with
      | mainThread | clientThread | serverThread | exited => exact hval _
      | clientNo =>
        have hnot : Place.clientNo ∉ (s.withSeen v).writes l := by
          have hown : Place.clientNo ≠ l.thread.place := by cases l <;> nofun
          simp [writes, hown]
        refine ⟨fun hp => absurd hp hnot, fun _ => clientNo_keep ?_⟩
        exact (clientNo_of_step ht).trans clientNo_withSeen
      | shared x =>
        have hiff := shared_mem_writes hs (x := x)
        rw [touches_withSeen] at hiff
        rw [hiff, value_keep_shared, value_keep_shared]
        cases hends : s'.exited with
        | some msg => exact ⟨fun hx => absurd hx.1 (by simp), fun _ => rfl⟩
        | none =>
          have hshared : x ∈ s.touches l → Place.shared x ∈ s.reads l :=
            fun hx => .inr (.inr (.inr (.inr ⟨x, hx, rfl⟩)))
          dsimp only [Option.isSome_none]
          simp only [Bool.false_eq_true, ↓reduceIte, true_and]
          by_cases hx : x ∈ s.alters l
          · rw [if_pos hx, if_pos hx]
            have htouched := alters_subset_touches hx
            exact ⟨fun _ => hsame _ (hshared htouched), fun hnot => absurd htouched hnot⟩
          · rw [if_neg hx, if_neg hx]
            exact ⟨fun htouched => h _ (hshared htouched), fun _ => rfl⟩

end Core

end SdrProxy
