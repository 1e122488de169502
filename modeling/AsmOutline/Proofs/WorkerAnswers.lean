import AsmOutline.Worker
import Mathlib.Tactic.SplitIfs

/-! # What a worker answers

Until the numbers run out, a new generation is larger than all that threads and messages
carry. A result that the receiver takes then comes from the job submitted last, whatever
steps the threads took and in which order, and its value is the value of that job.
-/
namespace AsmOutline

variable {α : Type}

/-- A value on its way to the channel is `v`. -/
def Stage.Holds (stage : Stage α) (v : α) : Prop :=
  match stage with
  | .finished value => value = v
  | .sending value => value = v
  | _ => True

/-- Whatever the thread sends is `v`. -/
structure Thread.Gives (thread : Thread α) (v : α) : Prop where
  job_value : thread.job.value = some v
  stage_holds : thread.stage.Holds v

namespace Thread

variable {thread : Thread α} {latest : Nat} {v value : α} {stage : Stage α}

theorem step_goesOn (hs : thread.step latest = .goesOn stage) :
    (∃ left, stage = .running left) ∨
      (∃ value, thread.job.value = some value ∧ stage = .finished value) ∨
      (∃ value, thread.stage = .finished value ∧ stage = .sending value) := by
  unfold step at hs
  cases hstage : thread.stage with
  | waiting =>
    simp only [hstage] at hs
    split_ifs at hs
    cases hs
    exact .inl ⟨_, rfl⟩
  | running left =>
    cases left with
    | zero =>
      cases hjob : thread.job.value with
      | none => simp [hstage, hjob] at hs
      | some value =>
        simp only [hstage, hjob] at hs
        cases hs
        exact .inr (.inl ⟨value, rfl, rfl⟩)
    | succ left =>
      simp only [hstage] at hs
      split_ifs at hs
      cases hs
      exact .inl ⟨left, rfl⟩
  | finished value =>
    simp only [hstage] at hs
    split_ifs at hs
    cases hs
    exact .inr (.inr ⟨value, rfl, rfl⟩)
  | sending value => simp [hstage] at hs

theorem step_sends (hs : thread.step latest = .sends value) : thread.stage = .sending value := by
  unfold step at hs
  cases hstage : thread.stage with
  | waiting =>
    simp only [hstage] at hs
    split_ifs at hs
  | running left =>
    cases left with
    | zero => cases hjob : thread.job.value <;> simp [hstage, hjob] at hs
    | succ left =>
      simp only [hstage] at hs
      split_ifs at hs
  | finished x =>
    simp only [hstage] at hs
    split_ifs at hs
  | sending x =>
    simp only [hstage] at hs
    cases hs
    rfl

theorem Gives.goesOn (h : thread.Gives v) (hs : thread.step latest = .goesOn stage) :
    Gives { thread with stage := stage } v := by
  refine ⟨h.job_value, ?_⟩
  rcases step_goesOn hs with ⟨left, rfl⟩ | ⟨value, hjob, rfl⟩ | ⟨value, hstage, rfl⟩
  · trivial
  · rw [h.job_value] at hjob
    exact (Option.some.inj hjob).symm
  · have hold := h.stage_holds
    rw [hstage] at hold
    exact hold

theorem Gives.sends (h : thread.Gives v) (hs : thread.step latest = .sends value) : value = v := by
  have hold := h.stage_holds
  rw [step_sends hs] at hold
  exact hold

end Thread

namespace Worker

variable {w : Worker α} {limit elapsed : Duration} {v : α} {i : Nat}

/-- All that a step of a thread can do to its worker. -/
theorem advance_cases (w : Worker α) (i : Nat) (elapsed : Duration) :
    w.advance i elapsed = w ∨ w.advance i elapsed = { w with threads := w.threads.eraseIdx i } ∨
    ∃ thread ∈ w.threads,
      (∃ stage, thread.step w.latest = .goesOn stage ∧
        w.advance i elapsed = { w with threads := w.threads.set i { thread with stage := stage } }) ∨
      (∃ value, thread.step w.latest = .sends value ∧
        w.advance i elapsed =
          { w with
            threads := w.threads.eraseIdx i
            channel := w.channel ++ [⟨thread.generation, value, elapsed⟩] }) := by
  unfold advance
  cases hi : w.threads[i]? with
  | none => exact .inl rfl
  | some thread =>
    have hm : thread ∈ w.threads := List.mem_of_getElem? hi
    cases hs : thread.step w.latest with
    | goesOn stage => exact .inr (.inr ⟨thread, hm, .inl ⟨stage, hs, by simp [hs]⟩⟩)
    | sends value => exact .inr (.inr ⟨thread, hm, .inr ⟨value, hs, by simp [hs]⟩⟩)
    | ends => exact .inr (.inl (by simp [hs]))

@[simp] theorem advance_latest : (w.advance i elapsed).latest = w.latest := by
  obtain h | h | ⟨_, _, ⟨_, _, h⟩ | ⟨_, _, h⟩⟩ := advance_cases w i elapsed <;> rw [h]

@[simp] theorem advance_pending : (w.advance i elapsed).pending = w.pending := by
  obtain h | h | ⟨_, _, ⟨_, _, h⟩ | ⟨_, _, h⟩⟩ := advance_cases w i elapsed <;> rw [h]

@[simp] theorem advance_nextGeneration :
    (w.advance i elapsed).nextGeneration = w.nextGeneration := by
  obtain h | h | ⟨_, _, ⟨_, _, h⟩ | ⟨_, _, h⟩⟩ := advance_cases w i elapsed <;> rw [h]

/-- A thread after a step is one that was there, or one that went on. -/
theorem mem_advance_threads {thread : Thread α} (h : thread ∈ (w.advance i elapsed).threads) :
    thread ∈ w.threads ∨ ∃ before ∈ w.threads, ∃ stage,
      before.step w.latest = .goesOn stage ∧ thread = { before with stage := stage } := by
  obtain he | he | ⟨before, hb, ⟨stage, hs, he⟩ | ⟨_, _, he⟩⟩ := advance_cases w i elapsed
  · exact .inl (he ▸ h)
  · rw [he] at h
    exact .inl (List.mem_of_mem_eraseIdx h)
  · rw [he] at h
    rcases List.mem_or_eq_of_mem_set h with hm | hm
    · exact .inl hm
    · exact .inr ⟨before, hb, stage, hs, hm⟩
  · rw [he] at h
    exact .inl (List.mem_of_mem_eraseIdx h)

/-- A message after a step is one that was there, or one that a thread sent. -/
theorem mem_advance_channel {d : Delivery α} (h : d ∈ (w.advance i elapsed).channel) :
    d ∈ w.channel ∨ ∃ thread ∈ w.threads, ∃ value,
      thread.step w.latest = .sends value ∧ d = ⟨thread.generation, value, elapsed⟩ := by
  obtain he | he | ⟨thread, ht, ⟨_, _, he⟩ | ⟨value, hs, he⟩⟩ := advance_cases w i elapsed
  · exact .inl (he ▸ h)
  · rw [he] at h
    exact .inl h
  · rw [he] at h
    exact .inl h
  · rw [he] at h
    rcases List.mem_append.1 h with hm | hm
    · exact .inl hm
    · exact .inr ⟨thread, ht, value, hs, List.mem_singleton.1 hm⟩

theorem drainAll_of_idle {w : Worker α} (hp : w.pending = none) (ds : List (Delivery α)) :
    w.drainAll ds = (none, w) := by
  induction ds with
  | nil => rfl
  | cons d ds ih =>
    have hd : w.accept d = (none, w) := by simp [accept, hp]
    simp [drainAll, hd, ih]

theorem drainAll_cases (w : Worker α) (ds : List (Delivery α)) :
    (∃ d ∈ ds, w.pending = some d.generation ∧ w.drainAll ds = (some d, { w with pending := none })) ∨
      w.drainAll ds = (none, w) := by
  induction ds with
  | nil => exact .inr rfl
  | cons d ds ih =>
    by_cases hd : w.pending = some d.generation
    · left
      refine ⟨d, List.mem_cons_self, hd, ?_⟩
      have ha : w.accept d = (some d, { w with pending := none }) := by simp [accept, hd]
      rw [drainAll, ha, drainAll_of_idle rfl]
      rfl
    · have ha : w.accept d = (none, w) := by simp [accept, hd]
      rw [drainAll, ha]
      rcases ih with ⟨e, he, hp, hr⟩ | hr
      · exact .inl ⟨e, List.mem_cons_of_mem _ he, hp, by simp [hr]⟩
      · exact .inr (by simp [hr])

/-- Draining gives the message waited for, or leaves the wait as it is. -/
theorem drain_cases (w : Worker α) :
    (∃ d ∈ w.channel, w.pending = some d.generation ∧
      w.drain = (some d, { w with pending := none, channel := [] })) ∨
      w.drain = (none, { w with channel := [] }) :=
  drainAll_cases { w with channel := [] } w.channel

theorem drain_of_idle (hp : w.pending = none) : w.drain = (none, { w with channel := [] }) := by
  have hcleared : ({ w with channel := [] } : Worker α).pending = none := hp
  exact drainAll_of_idle hcleared w.channel

/-- No generation in use is above the latest, and the latest is the one waited for. -/
structure Ordered (w : Worker α) : Prop where
  latest_le : w.latest ≤ maxGeneration
  next_eq : w.nextGeneration = min (w.latest + 1) maxGeneration
  thread_le : ∀ thread ∈ w.threads, thread.generation ≤ w.latest
  message_le : ∀ d ∈ w.channel, d.generation ≤ w.latest
  pending_eq : ∀ g, w.pending = some g → g = w.latest

theorem ordered_new (delay : Duration) : Ordered ({ delay := delay } : Worker α) where
  latest_le := Nat.zero_le _
  next_eq := rfl
  thread_le := by simp
  message_le := by simp
  pending_eq := by simp

theorem Ordered.advance (h : w.Ordered) : (w.advance i elapsed).Ordered where
  latest_le := by simpa using h.latest_le
  next_eq := by simpa using h.next_eq
  thread_le thread ht := by
    rw [advance_latest]
    rcases mem_advance_threads ht with hm | ⟨before, hb, _, _, rfl⟩
    · exact h.thread_le thread hm
    · exact h.thread_le before hb
  message_le d hd := by
    rw [advance_latest]
    rcases mem_advance_channel hd with hm | ⟨thread, ht, _, _, rfl⟩
    · exact h.message_le d hm
    · exact h.thread_le thread ht
  pending_eq g hg := by
    rw [advance_latest]
    exact h.pending_eq g (by simpa using hg)

theorem Ordered.le_next (h : w.Ordered) : w.latest ≤ w.nextGeneration := by
  have hl := h.latest_le
  have hn := h.next_eq
  omega

theorem Ordered.issue (h : w.Ordered) : (w.issue.latest ≤ maxGeneration) ∧
    w.issue.nextGeneration = min (w.issue.latest + 1) maxGeneration := by
  have hn := h.next_eq
  refine ⟨?_, rfl⟩
  show w.nextGeneration ≤ maxGeneration
  omega

theorem Ordered.submit (h : w.Ordered) (job : Job α) : (w.submit job).Ordered where
  latest_le := h.issue.1
  next_eq := h.issue.2
  thread_le thread ht := by
    rcases List.mem_append.1 ht with hm | hm
    · exact Nat.le_trans (h.thread_le thread hm) h.le_next
    · rw [List.mem_singleton.1 hm]
      exact Nat.le_refl _
  message_le d hd := Nat.le_trans (h.message_le d hd) h.le_next
  pending_eq g hg := (Option.some.inj hg).symm

theorem Ordered.cancel (h : w.Ordered) : w.cancel.Ordered where
  latest_le := h.issue.1
  next_eq := h.issue.2
  thread_le thread ht := Nat.le_trans (h.thread_le thread ht) h.le_next
  message_le d hd := Nat.le_trans (h.message_le d hd) h.le_next
  pending_eq g hg := by cases hg

theorem Ordered.drain (h : w.Ordered) : w.drain.2.Ordered := by
  rcases drain_cases w with ⟨d, _, _, hr⟩ | hr
  · rw [hr]
    exact ⟨h.latest_le, h.next_eq, h.thread_le, by simp, by simp⟩
  · rw [hr]
    exact ⟨h.latest_le, h.next_eq, h.thread_le, by simp, h.pending_eq⟩

/-- Generations are numbered in the order in which they are issued. -/
def Later (w next : Worker α) : Prop :=
  w.Ordered → next.Ordered ∧ w.latest ≤ next.latest

theorem Later.refl (w : Worker α) : w.Later w :=
  fun h => ⟨h, Nat.le_refl _⟩

theorem Later.trans {next last : Worker α} (h : w.Later next) (hn : next.Later last) : w.Later last := by
  intro ho
  obtain ⟨h1, hle⟩ := h ho
  obtain ⟨h2, hle'⟩ := hn h1
  exact ⟨h2, Nat.le_trans hle hle'⟩

theorem later_submit (w : Worker α) (job : Job α) : w.Later (w.submit job) :=
  fun h => ⟨h.submit job, h.le_next⟩

theorem later_cancel (w : Worker α) : w.Later w.cancel :=
  fun h => ⟨h.cancel, h.le_next⟩

theorem later_drain (w : Worker α) : w.Later w.drain.2 := by
  intro h
  refine ⟨h.drain, ?_⟩
  rcases drain_cases w with ⟨_, _, _, hr⟩ | hr
  · simp [hr]
  · simp [hr]

/-- The worker waits for nothing, or for a result that can only be `v`. -/
structure Serves (w : Worker α) (limit : Duration) (v : α) : Prop extends Ordered w where
  quick : ∀ d ∈ w.channel, d.elapsed.exceeds limit = false
  thread_gives : w.pending.isSome → ∀ thread ∈ w.threads, thread.generation = w.latest → thread.Gives v
  message_gives : w.pending.isSome → ∀ d ∈ w.channel, d.generation = w.latest → d.value = v

theorem serves_new (delay limit : Duration) (v : α) : Serves ({ delay := delay } : Worker α) limit v where
  toOrdered := ordered_new delay
  quick := by simp
  thread_gives := by simp
  message_gives := by simp

theorem Serves.of_idle {u : α} (h : w.Serves limit u) (hp : w.pending = none) : w.Serves limit v where
  toOrdered := h.toOrdered
  quick := h.quick
  thread_gives := by simp [hp]
  message_gives := by simp [hp]

theorem Serves.advance (h : w.Serves limit v) (hq : elapsed.exceeds limit = false) :
    (w.advance i elapsed).Serves limit v where
  toOrdered := h.toOrdered.advance
  quick d hd := by
    rcases mem_advance_channel hd with hm | ⟨_, _, _, _, rfl⟩
    · exact h.quick d hm
    · exact hq
  thread_gives hp thread ht hg := by
    rw [advance_pending] at hp
    rw [advance_latest] at hg
    rcases mem_advance_threads ht with hm | ⟨before, hb, _, hs, rfl⟩
    · exact h.thread_gives hp thread hm hg
    · exact (h.thread_gives hp before hb hg).goesOn hs
  message_gives hp d hd hg := by
    rw [advance_pending] at hp
    rw [advance_latest] at hg
    rcases mem_advance_channel hd with hm | ⟨thread, ht, _, hs, rfl⟩
    · exact h.message_gives hp d hm hg
    · exact (h.thread_gives hp thread ht hg).sends hs

/-- The threads take some steps; each names its thread and what the clock shows. -/
def advanceAll (w : Worker α) (steps : List (Nat × Duration)) : Worker α :=
  steps.foldl (fun w step => w.advance step.1 step.2) w

@[simp] theorem advanceAll_latest (steps : List (Nat × Duration)) :
    (w.advanceAll steps).latest = w.latest := by
  induction steps generalizing w with
  | nil => rfl
  | cons step steps ih => exact ih.trans advance_latest

@[simp] theorem advanceAll_pending (steps : List (Nat × Duration)) :
    (w.advanceAll steps).pending = w.pending := by
  induction steps generalizing w with
  | nil => rfl
  | cons step steps ih => exact ih.trans advance_pending

theorem later_advanceAll (w : Worker α) (steps : List (Nat × Duration)) : w.Later (w.advanceAll steps) := by
  induction steps generalizing w with
  | nil => exact .refl w
  | cons step steps ih =>
    have hfirst : w.Later (w.advance step.1 step.2) := fun h => ⟨h.advance, by simp⟩
    exact hfirst.trans (ih _)

theorem Serves.advanceAll {steps : List (Nat × Duration)} (h : w.Serves limit v)
    (hq : ∀ step ∈ steps, step.2.exceeds limit = false) : (w.advanceAll steps).Serves limit v := by
  induction steps generalizing w with
  | nil => exact h
  | cons step steps ih =>
    have hfirst : (w.advance step.1 step.2).Serves limit v := h.advance (hq step List.mem_cons_self)
    exact ih hfirst fun later hl => hq later (List.mem_cons_of_mem _ hl)

/-- A new generation is above all earlier ones as long as the numbers do not run out. -/
theorem Serves.submit {u : α} {job : Job α} (h : w.Serves limit u) (hj : job.value = some v)
    (hl : (w.submit job).latest < maxGeneration) : (w.submit job).Serves limit v where
  toOrdered := h.toOrdered.submit job
  quick := h.quick
  thread_gives _ thread ht hg := by
    have hnew : w.latest < w.nextGeneration := by
      have hl' : w.nextGeneration < maxGeneration := hl
      have hn := h.next_eq
      omega
    rcases List.mem_append.1 ht with hm | hm
    · have hle := h.thread_le thread hm
      have hg' : thread.generation = w.nextGeneration := hg
      omega
    · rw [List.mem_singleton.1 hm]
      exact ⟨hj, trivial⟩
  message_gives _ d hd hg := by
    have hl' : w.nextGeneration < maxGeneration := hl
    have hn := h.next_eq
    have hle := h.message_le d hd
    have hg' : d.generation = w.nextGeneration := hg
    omega

theorem Serves.cancel (h : w.Serves limit v) : w.cancel.Serves limit v where
  toOrdered := h.toOrdered.cancel
  quick := h.quick
  thread_gives hp := by cases hp
  message_gives hp := by cases hp

/-- What a drain gives is `v`, and then nothing is waited for. -/
theorem Serves.drain_some {d : Delivery α} {next : Worker α} (h : w.Serves limit v)
    (hd : w.drain = (some d, next)) :
    d.value = v ∧ d.elapsed.exceeds limit = false ∧ next.pending = none ∧ next.Serves limit v := by
  rcases drain_cases w with ⟨e, he, hp, hr⟩ | hr
  · rw [hr] at hd
    cases hd
    have hg : d.generation = w.latest := h.pending_eq _ hp
    refine ⟨h.message_gives (by simp [hp]) d he hg, h.quick d he, rfl, ?_⟩
    exact ⟨⟨h.latest_le, h.next_eq, h.thread_le, by simp, by simp⟩, by simp, by simp, by simp⟩
  · rw [hr] at hd
    cases hd

theorem Serves.drain_none {next : Worker α} (h : w.Serves limit v) (hd : w.drain = (none, next)) :
    next.pending = w.pending ∧ next.Serves limit v := by
  rcases drain_cases w with ⟨e, he, hp, hr⟩ | hr
  · rw [hr] at hd
    cases hd
  · rw [hr] at hd
    cases hd
    refine ⟨rfl, ⟨h.latest_le, h.next_eq, h.thread_le, by simp, h.pending_eq⟩, by simp, ?_, by simp⟩
    exact h.thread_gives

/-- Steps of threads neither read the channel and the wait nor change them, except that they send. -/
theorem advance_frame (w : Worker α) (i : Nat) (elapsed : Duration) :
    ∃ threads sent, ∀ pending channel,
      advance { w with pending := pending, channel := channel } i elapsed =
        { w with threads := threads, pending := pending, channel := channel ++ sent } := by
  cases hi : w.threads[i]? with
  | none => exact ⟨w.threads, [], fun pending channel => by simp [advance, hi]⟩
  | some thread =>
    cases hs : thread.step w.latest with
    | goesOn stage =>
      exact ⟨w.threads.set i { thread with stage := stage }, [],
        fun pending channel => by simp [advance, hi, hs]⟩
    | sends value =>
      exact ⟨w.threads.eraseIdx i, [⟨thread.generation, value, elapsed⟩],
        fun pending channel => by simp [advance, hi, hs]⟩
    | ends => exact ⟨w.threads.eraseIdx i, [], fun pending channel => by simp [advance, hi, hs]⟩

theorem advanceAll_frame (w : Worker α) (steps : List (Nat × Duration)) :
    ∃ threads sent, ∀ pending channel,
      advanceAll { w with pending := pending, channel := channel } steps =
        { w with threads := threads, pending := pending, channel := channel ++ sent } := by
  induction steps generalizing w with
  | nil => exact ⟨w.threads, [], fun pending channel => by simp [advanceAll]⟩
  | cons step steps ih =>
    obtain ⟨threads, sent, hfirst⟩ := advance_frame w step.1 step.2
    obtain ⟨last, more, hrest⟩ := ih { w with threads := threads }
    refine ⟨last, sent ++ more, fun pending channel => ?_⟩
    have hstep := hrest pending (channel ++ sent)
    rw [← hfirst, List.append_assoc] at hstep
    exact hstep

/-- A drain between whose messages the threads take steps. -/
def drainAmid (w : Worker α) : List (List (Nat × Duration)) → Option (Delivery α) × Worker α
  | [] => w.drain
  | gap :: gaps =>
    match w.channel with
    | [] => (none, w)
    | d :: rest =>
      let first := accept { w with channel := rest } d
      let later := drainAmid (first.2.advanceAll gap) gaps
      (later.1.or first.1, later.2)

/-- The threads might as well have taken these steps before the drain. -/
theorem drainAmid_eq (w : Worker α) (gaps : List (List (Nat × Duration))) :
    ∃ k, w.drainAmid gaps = (w.advanceAll (gaps.take k).flatten).drain := by
  induction gaps generalizing w with
  | nil => exact ⟨0, rfl⟩
  | cons gap gaps ih =>
    cases hc : w.channel with
    | nil =>
      refine ⟨0, ?_⟩
      have hempty : ({ w with channel := [] } : Worker α) = w := by rw [← hc]
      simp [drainAmid, advanceAll, drain, drainAll, hc, hempty]
    | cons d rest =>
      have hself : w = { w with pending := w.pending, channel := d :: rest } := by rw [← hc]
      obtain ⟨k, hk⟩ := ih ((accept { w with channel := rest } d).2.advanceAll gap)
      obtain ⟨threads, sent, hframe⟩ := advanceAll_frame w (gap ++ (gaps.take k).flatten)
      refine ⟨k + 1, ?_⟩
      have hlast : (w.advanceAll ((gap :: gaps).take (k + 1)).flatten).drain =
          drainAll { w with threads := threads, channel := [] } (d :: (rest ++ sent)) := by
        rw [List.take_succ_cons, List.flatten_cons, hself, hframe]
        rfl
      rw [hlast, drainAmid, hc]
      dsimp only
      rw [hk, advanceAll, advanceAll, ← List.foldl_append, ← advanceAll]
      by_cases hp : w.pending = some d.generation
      · simp only [accept, hp, if_pos, drainAll, hframe]
        rfl
      · simp only [accept, hp, if_false, drainAll, hframe]
        rfl

end Worker
end AsmOutline
