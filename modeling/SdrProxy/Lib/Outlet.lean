import Mathlib.Data.List.Basic

/-!
# Whole messages through a bounded buffer

A sender puts whole messages into a buffer of limited capacity, at most one in a turn, and then
something takes elements off its front, as many as it likes.

* `Outlet.turn` : one turn;
* `Outlet.stream` : what is taken, what the buffer holds and what is still to be put there are the
  same stream all the time (`Outlet.taken_append`);
* `Outlet.weight` : the elements in the buffer and one more than the length of every message to
  come; a turn in which something is taken lowers it (`Outlet.weight_turn`);
* `Outlet.run_drains` : so after as many turns nothing is left.
-/

namespace SdrProxy

/-- A buffer and the messages that are still to be put there. -/
structure Outlet (α : Type*) where
  /-- What the buffer holds. -/
  buffer : List α
  /-- The messages to come. -/
  todo : List (List α)

namespace Outlet

variable {α : Type*}

/-- The next message into the buffer, if there is room for it. -/
def place (cap : ℕ) (o : Outlet α) : Outlet α :=
  match o.todo with
  | [] => o
  | msg :: msgs =>
    if o.buffer.length + msg.length ≤ cap then ⟨o.buffer ++ msg, msgs⟩ else o

/-- One turn, in which `n` elements are taken, or all there are. -/
def turn (cap n : ℕ) (o : Outlet α) : Outlet α :=
  { o.place cap with buffer := (o.place cap).buffer.drop n }

/-- What is taken in one turn. -/
def taken (cap n : ℕ) (o : Outlet α) : List α := (o.place cap).buffer.take n

/-- The elements that are still to be taken. -/
def stream (o : Outlet α) : List α := o.buffer ++ o.todo.flatten

/-- The elements in the buffer, and one more than the length of each message to come. -/
def weight (o : Outlet α) : ℕ := o.buffer.length + o.todo.flatten.length + o.todo.length

variable {cap n : ℕ} {o : Outlet α}

/-- Where the buffer stands does not matter to the stream. -/
theorem stream_place (cap : ℕ) (o : Outlet α) : (o.place cap).stream = o.stream := by
  unfold place
  cases htodo : o.todo with
  | nil => rfl
  | cons msg msgs =>
    dsimp only
    split_ifs
    · simp [stream, htodo]
    · rfl

/-- **A turn takes the front of the stream.** -/
theorem taken_append (cap n : ℕ) (o : Outlet α) :
    o.taken cap n ++ (o.turn cap n).stream = o.stream := by
  rw [← stream_place cap o, taken, turn, stream, stream, ← List.append_assoc, List.take_append_drop]

theorem todo_place_suffix (cap : ℕ) (o : Outlet α) : (o.place cap).todo <:+ o.todo := by
  unfold place
  cases htodo : o.todo with
  | nil => simp [htodo]
  | cons msg msgs =>
    dsimp only
    split_ifs
    · exact List.suffix_cons msg msgs
    · simp [htodo]

/-- Putting a message into the buffer lowers the weight, unless nothing is put there: then there is
none to come, or the buffer is not empty. -/
theorem weight_place (hfit : ∀ msg ∈ o.todo, msg.length ≤ cap) :
    (o.place cap).weight < o.weight ∨ o.place cap = o ∧ (o.todo = [] ∨ 0 < o.buffer.length) := by
  unfold place
  cases htodo : o.todo with
  | nil => exact .inr ⟨rfl, .inl rfl⟩
  | cons msg msgs =>
    have hmsg : msg.length ≤ cap := hfit msg (htodo ▸ List.mem_cons_self)
    dsimp only
    split_ifs with hroom
    · left
      simp only [weight, htodo, List.length_append, List.flatten_cons, List.length_cons]
      omega
    · exact .inr ⟨rfl, .inr (by omega)⟩

/-- **A turn in which something is taken lowers the weight**, if each message fits the buffer. -/
theorem weight_turn (hfit : ∀ msg ∈ o.todo, msg.length ≤ cap) (hn : 0 < n) :
    (o.turn cap n).weight ≤ o.weight - 1 := by
  have hdrop : (o.turn cap n).weight ≤ (o.place cap).weight := by
    simp only [turn, weight, List.length_drop]
    omega
  rcases weight_place hfit with hlt | ⟨hsame, hleft⟩
  · omega
  · simp only [turn, hsame, weight, List.length_drop]
    rcases hleft with hnil | hpos
    · simp only [hnil, List.flatten_nil, List.length_nil]
      omega
    · omega

theorem eq_nil_of_weight (h : o.weight = 0) : o.buffer = [] ∧ o.todo = [] := by
  obtain ⟨hstream, htodo⟩ := Nat.add_eq_zero_iff.1 h
  obtain ⟨hbuffer, -⟩ := Nat.add_eq_zero_iff.1 hstream
  exact ⟨List.length_eq_zero_iff.1 hbuffer, List.length_eq_zero_iff.1 htodo⟩

/-- Turns in which the given numbers of elements are taken. -/
def run (cap : ℕ) (ns : List ℕ) (o : Outlet α) : Outlet α := ns.foldl (fun o n => o.turn cap n) o

/-- **After enough turns everything has gone**, if each message fits the buffer and something is
taken in every turn. -/
theorem run_drains {ns : List ℕ} (hfit : ∀ msg ∈ o.todo, msg.length ≤ cap) (hns : ∀ n ∈ ns, 0 < n)
    (hlong : o.weight ≤ ns.length) : (o.run cap ns).buffer = [] ∧ (o.run cap ns).todo = [] := by
  induction ns generalizing o with
  | nil => exact eq_nil_of_weight (Nat.le_zero.1 hlong)
  | cons n ns ih =>
    have hturn := weight_turn hfit (hns n List.mem_cons_self)
    have hlong' : o.weight ≤ ns.length + 1 := hlong
    refine ih (o := o.turn cap n) ?_ (fun k hk => hns k (List.mem_cons_of_mem n hk)) (by omega)
    exact fun msg hmsg => hfit msg ((todo_place_suffix cap o).subset hmsg)

end Outlet

end SdrProxy
