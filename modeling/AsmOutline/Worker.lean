import AsmOutline.Number.Duration

/-! # A background worker with a quiet delay

Each submission gets a new generation and starts a thread of its own. A thread waits for
the delay to pass, runs its job, looks once more whether it is still the latest, and then
sends its result. At each of these steps it may find that a later generation was issued,
and then it ends without a result. The threads take their steps in any order, between
any two calls, so a result that is no longer wanted can still reach the channel: the
receiver takes only the result of the generation that it waits for.
-/
namespace AsmOutline

/-- A job looks `checks` times whether it was superseded; undisturbed, it gives `value`. -/
structure Job (α : Type) where
  checks : Nat
  value : Option α

namespace Job

/-- The lines between two looks. -/
def lineBatch : Nat := 256

/-- A job over the lines of a text looks before the first line of every batch. -/
def overLines {α : Type} (lines : Nat) (value : α) : Job α :=
  ⟨(lines + lineBatch - 1) / lineBatch, some value⟩

/-- The value of a job whose looks find `cancelled`. -/
def run? {α : Type} (job : Job α) (cancelled : Bool) : Option α :=
  if cancelled ∧ 0 < job.checks then none else job.value

end Job

structure Delivery (α : Type) where
  generation : Nat
  value : α
  elapsed : Duration

inductive Stage (α : Type)
  | waiting
  | running (checksLeft : Nat)
  | finished (value : α)
  | sending (value : α)

structure Thread (α : Type) where
  generation : Nat
  job : Job α
  stage : Stage α := .waiting

structure Worker (α : Type) where
  delay : Duration
  latest : Nat := 0
  nextGeneration : Nat := 1
  pending : Option Nat := none
  threads : List (Thread α) := []
  channel : List (Delivery α) := []

namespace Thread

variable {α : Type}

/-- What one step of a thread leads to. -/
inductive Progress (α : Type)
  | goesOn (stage : Stage α)
  | sends (value : α)
  | ends

/-- One atomic step; `latest` is the generation issued last. -/
def step (thread : Thread α) (latest : Nat) : Progress α :=
  let current := thread.generation = latest
  match thread.stage with
  | .waiting => if current then .goesOn (.running thread.job.checks) else .ends
  | .running (left + 1) => if current then .goesOn (.running left) else .ends
  | .running 0 =>
    match thread.job.value with
    | some value => .goesOn (.finished value)
    | none => .ends
  | .finished value => if current then .goesOn (.sending value) else .ends
  | .sending value => .sends value

end Thread

namespace Worker

variable {α : Type}

def maxGeneration : Nat := Nat.pow 2 64 - 1

def isPending (w : Worker α) : Bool :=
  w.pending.isSome

/-- Whether a thread of this generation would find itself superseded. -/
def isCancelled (w : Worker α) (generation : Nat) : Bool :=
  w.latest != generation

/-- A job over lines looks only where a batch starts. -/
def isCancelledAt (w : Worker α) (generation line : Nat) : Bool :=
  line % Job.lineBatch == 0 && w.isCancelled generation

def issue (w : Worker α) : Worker α :=
  { w with latest := w.nextGeneration, nextGeneration := min (w.nextGeneration + 1) maxGeneration }

def submit (w : Worker α) (job : Job α) : Worker α :=
  { w.issue with
    pending := some w.nextGeneration
    threads := w.threads ++ [{ generation := w.nextGeneration, job := job }] }

def cancel (w : Worker α) : Worker α :=
  { w.issue with pending := none }

/-- Takes in one delivery; it counts only if its generation is the one waited for. -/
def accept (w : Worker α) (delivery : Delivery α) : Option (Delivery α) × Worker α :=
  if w.pending = some delivery.generation then (some delivery, { w with pending := none })
  else (none, w)

def drainAll (w : Worker α) : List (Delivery α) → Option (Delivery α) × Worker α
  | [] => (none, w)
  | delivery :: rest =>
    let first := w.accept delivery
    let later := drainAll first.2 rest
    (later.1.or first.1, later.2)

/-- Empties the channel. -/
def drain (w : Worker α) : Option (Delivery α) × Worker α :=
  drainAll { w with channel := [] } w.channel

/-- Receives until the wanted delivery comes or the channel is empty. -/
def receive (w : Worker α) : List (Delivery α) → Option (Delivery α) × Worker α
  | [] => (none, { w with channel := [] })
  | delivery :: rest =>
    match w.accept delivery with
    | (some wanted, w) => (some wanted, { w with channel := rest })
    | (none, w) => receive w rest

/-- Nothing is received when nothing is pending. -/
def wait (w : Worker α) : Option (Delivery α) × Worker α :=
  if w.isPending then w.receive w.channel else (none, w)

/-- The thread at place `i` takes a step; `elapsed` is what its clock shows if it sends. -/
def advance (w : Worker α) (i : Nat) (elapsed : Duration) : Worker α :=
  match w.threads[i]? with
  | none => w
  | some thread =>
    match thread.step w.latest with
    | .goesOn stage => { w with threads := w.threads.set i { thread with stage := stage } }
    | .ends => { w with threads := w.threads.eraseIdx i }
    | .sends value =>
      { w with
        threads := w.threads.eraseIdx i
        channel := w.channel ++ [⟨thread.generation, value, elapsed⟩] }

/-- The first thread takes up to `steps` steps, or ends. -/
def advanceFirst (w : Worker α) (elapsed : Duration) : Nat → Worker α
  | 0 => w
  | steps + 1 => advanceFirst (w.advance 0 elapsed) elapsed steps

/-- How many steps a thread takes at most. -/
def stepBound (w : Worker α) : Nat :=
  w.threads.foldr (fun thread steps => thread.job.checks + 4 + steps) 0

/-- Time in which every thread can run to its end, with no call in between. -/
def quietTime (w : Worker α) (elapsed : Duration) : Worker α :=
  w.advanceFirst elapsed w.stepBound

end Worker
end AsmOutline
