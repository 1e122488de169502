import AsmOutline.Notice

/-! # Breakers

A breaker is on or off. A call that exceeds a limit while the breaker is on trips it: the
breaker goes off and raises a notice, and only a reset can switch it on again. The notices
wait until a call hands them out. Counted over a whole run, handed out or still waiting,
there is one notice for each trip, and from one reset up to the next there is one at most.
-/
namespace AsmOutline

structure Breaker (State Call : Type) where
  after : State → Call → State
  /-- The state in which a call meets the limits: a reset first sets the state anew. -/
  met : State → Call → State
  isOn : State → Bool
  isReset : Call → Bool
  exceeds : State → Call → Bool
  waiting : State → List Notice
  handedOut : State → Call → List Notice
  met_eq : ∀ s c, isReset c = false → met s c = s
  isOn_after : ∀ s c, isOn (after s c) = (isOn (met s c) && !exceeds s c)
  raises : ∀ s c, ∃ raised, handedOut s c ++ waiting (after s c) = waiting s ++ raised ∧
    raised.length = (isOn (met s c) && exceeds s c).toNat

namespace Breaker

variable {State Call : Type} (b : Breaker State Call)

/-- The call finds the breaker on and leaves it off. -/
def trips (s : State) (c : Call) : Bool :=
  b.isOn (b.met s c) && !b.isOn (b.after s c)

def run (s : State) (calls : List Call) : State :=
  calls.foldl b.after s

/-- The notices handed out during a run, then those that wait at its end. -/
def ledger (s : State) : List Call → List Notice
  | [] => b.waiting s
  | c :: calls => b.handedOut s c ++ ledger (b.after s c) calls

def tripCount (s : State) : List Call → Nat
  | [] => 0
  | c :: calls => (b.trips s c).toNat + tripCount (b.after s c) calls

theorem trips_eq (s : State) (c : Call) : b.trips s c = (b.isOn (b.met s c) && b.exceeds s c) := by
  rw [trips, isOn_after]
  cases b.isOn (b.met s c) <;> simp

/-- What every call keeps is kept over a run. -/
theorem run_keeps {P : State → Prop} (hstep : ∀ s c, P s → P (b.after s c)) {s : State} (hs : P s)
    (calls : List Call) : P (b.run s calls) := by
  induction calls generalizing s with
  | nil => exact hs
  | cons c calls ih => exact ih (hstep s c hs)

theorem run_concat (s : State) (calls : List Call) (c : Call) :
    b.run s (calls ++ [c]) = b.after (b.run s calls) c :=
  List.foldl_append

theorem tripCount_append (s : State) (calls more : List Call) :
    b.tripCount s (calls ++ more) = b.tripCount s calls + b.tripCount (b.run s calls) more := by
  induction calls generalizing s with
  | nil => simp [tripCount, run]
  | cons c calls ih =>
    have hrest : b.tripCount (b.after s c) (calls ++ more) = _ := ih (b.after s c)
    simp only [List.cons_append, tripCount, hrest, run, List.foldl_cons, Nat.add_assoc]

/-- One more call adds at most its own notice to the ledger. -/
theorem ledger_concat (s : State) (calls : List Call) (c : Call) :
    ∃ raised, b.ledger s (calls ++ [c]) = b.ledger s calls ++ raised ∧
      raised.length = (b.trips (b.run s calls) c).toNat := by
  induction calls generalizing s with
  | nil =>
    rw [trips_eq]
    exact b.raises s c
  | cons first calls ih =>
    obtain ⟨raised, hledger, hlength⟩ := ih (b.after s first)
    refine ⟨raised, ?_, hlength⟩
    simp only [List.cons_append, ledger, hledger, List.append_assoc]

theorem length_ledger (s : State) (calls : List Call) :
    (b.ledger s calls).length = (b.waiting s).length + b.tripCount s calls := by
  induction calls generalizing s with
  | nil => rfl
  | cons c calls ih =>
    obtain ⟨raised, hledger, hlength⟩ := b.raises s c
    have hsizes := congrArg List.length hledger
    rw [← trips_eq] at hlength
    simp only [List.length_append] at hsizes
    simp only [ledger, tripCount, List.length_append, ih]
    omega

variable {b} {s : State} {c : Call} {calls : List Call}

theorem isOn_after_of_off (hs : b.isOn s = false) (hc : b.isReset c = false) : b.isOn (b.after s c) = false := by
  rw [isOn_after, b.met_eq s c hc, hs, Bool.false_and]

theorem trips_of_off (hs : b.isOn s = false) (hc : b.isReset c = false) : b.trips s c = false := by
  rw [trips, b.met_eq s c hc, hs, Bool.false_and]

theorem isOn_after_of_trips (h : b.trips s c = true) : b.isOn (b.after s c) = false := by
  simpa using (Bool.and_eq_true_iff.1 h).2

theorem tripCount_of_off (hs : b.isOn s = false) (hc : ∀ c ∈ calls, b.isReset c = false) :
    b.tripCount s calls = 0 := by
  induction calls generalizing s with
  | nil => rfl
  | cons c calls ih =>
    obtain ⟨hfirst, hrest⟩ := List.forall_mem_cons.1 hc
    rw [tripCount, trips_of_off hs hfirst, ih (isOn_after_of_off hs hfirst) hrest]
    rfl

/-- The first call may be a reset, and may trip what it has just switched on. -/
theorem tripCount_le_one (s : State) (hc : ∀ c ∈ calls.tail, b.isReset c = false) : b.tripCount s calls ≤ 1 := by
  induction calls generalizing s with
  | nil => exact Nat.zero_le 1
  | cons c calls ih =>
    rw [List.tail_cons] at hc
    rw [tripCount]
    cases ht : b.trips s c with
    | false =>
      have hrest := ih (b.after s c) fun c hmem => hc c (List.mem_of_mem_tail hmem)
      simpa using hrest
    | true =>
      rw [tripCount_of_off (isOn_after_of_trips ht) hc]
      exact Nat.le_refl 1

/-- What holds of every run from `start`. -/
structure TripsOnce (b : Breaker State Call) (start : State) : Prop where
  quiet_while_off : ∀ calls c, b.isOn (b.run start calls) = false → b.isReset c = false →
    b.ledger start (calls ++ [c]) = b.ledger start calls
  trips_iff : ∀ calls c, b.trips (b.run start calls) c = true ↔
    b.isOn (b.met (b.run start calls) c) = true ∧ b.exceeds (b.run start calls) c = true
  notices : ∀ calls, (b.ledger start calls).length = b.tripCount start calls
  at_most_one : ∀ before calls, (∀ c ∈ calls.tail, b.isReset c = false) →
    (b.ledger start (before ++ calls)).length ≤ (b.ledger start before).length + 1

theorem tripsOnce {start : State} (hstart : b.waiting start = []) : b.TripsOnce start where
  quiet_while_off calls c hoff hc := by
    obtain ⟨raised, hledger, hlength⟩ := b.ledger_concat start calls c
    rw [trips_of_off hoff hc, Bool.toNat_false, List.length_eq_zero_iff] at hlength
    rw [hledger, hlength, List.append_nil]
  trips_iff calls c := by rw [trips_eq, Bool.and_eq_true]
  notices calls := by rw [length_ledger, hstart, List.length_nil, Nat.zero_add]
  at_most_one before calls hc := by
    have hcalls := tripCount_le_one (b.run start before) hc
    rw [length_ledger, length_ledger, tripCount_append]
    omega

end Breaker
end AsmOutline
