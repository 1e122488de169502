import AsmOutline.Proofs.WorkerAnswers

/-! # The history of a worker

What can be seen of a worker is the list of its submissions, cancellations and returned
results. Threads take their steps between the calls and while a call receives. A thread
that passed its last look may send after a later call, so messages that nobody waits for
do reach the channel. A result that is returned nevertheless answers the last call of all,
which is a submission that had no result before.

A job is submitted together with its value, and the jobs are arbitrary. So the runs below
are those of jobs that give any result or none, whenever they run.
-/
namespace AsmOutline

variable {α : Type}

namespace Worker

/-- A call, or a step of a thread. The gaps of a call are the steps between its receives. -/
inductive Act (α : Type)
  | submit (job : Job α)
  | cancel
  | drain (gaps : List (List (Nat × Duration)))
  | wait (gaps : List (List (Nat × Duration))) (patient : Bool)
  | advance (i : Nat) (elapsed : Duration)

/-- Whether a generation is issued. -/
def Act.issues : Act α → Bool
  | submit _ | cancel => true
  | _ => false

inductive Event (α : Type)
  | submitted (generation : Nat) (job : Job α)
  | cancelled
  | returned (result : Delivery α)

namespace Event

def isCall : Event α → Bool
  | submitted _ _ | cancelled => true
  | returned _ => false

def submission? : Event α → Option Nat
  | submitted generation _ => some generation
  | _ => none

def result? : Event α → Option (Delivery α)
  | returned result => some result
  | _ => none

end Event

/-- The generations of all submissions, in the order in which they were made. -/
def submissions (log : List (Event α)) : List Nat :=
  log.filterMap Event.submission?

def results (log : List (Event α)) : List (Delivery α) :=
  log.filterMap Event.result?

/-- A wait between whose receives the threads take steps. After the last gap the time is
over, at once or, for a patient wait, when the channel is empty. -/
def waitAmid (w : Worker α) (patient : Bool) :
    List (List (Nat × Duration)) → Option (Delivery α) × Worker α
  | [] => if patient then w.wait else (none, w)
  | gap :: gaps =>
    let moved := w.advanceAll gap
    if moved.isPending then
      match moved.channel with
      | [] => moved.waitAmid patient gaps
      | d :: rest =>
        match accept { moved with channel := rest } d with
        | (some wanted, next) => (some wanted, next)
        | (none, next) => next.waitAmid patient gaps
    else (none, moved)

/-- What a call returns, as it stands in the history. -/
def answer (result : Option (Delivery α) × Worker α) : Worker α × List (Event α) :=
  (result.2, result.1.toList.map .returned)

def act (w : Worker α) : Act α → Worker α × List (Event α)
  | .submit job => (w.submit job, [.submitted w.nextGeneration job])
  | .cancel => (w.cancel, [.cancelled])
  | .drain gaps => answer (w.drainAmid gaps)
  | .wait gaps patient => answer (w.waitAmid patient gaps)
  | .advance i elapsed => (w.advance i elapsed, [])

/-- The worker after some acts, and what was seen of them. -/
def history (w : Worker α) : List (Act α) → Worker α × List (Event α)
  | [] => (w, [])
  | a :: acts =>
    let next := w.act a
    let later := next.1.history acts
    (later.1, next.2 ++ later.2)

theorem act_calls (w : Worker α) (a : Act α) : (w.act a).2.countP Event.isCall ≤ [a].countP Act.issues := by
  cases a with
  | submit job => exact Nat.le_refl _
  | cancel => exact Nat.le_refl _
  | drain gaps => cases h : (w.drainAmid gaps).1 <;> simp [act, answer, h, Event.isCall]
  | wait gaps patient => cases h : (w.waitAmid patient gaps).1 <;> simp [act, answer, h, Event.isCall]
  | advance i elapsed => exact Nat.le_refl _

/-- The last call of all submitted `job` as `generation`, and its result has not been returned. -/
def Unanswered (log : List (Event α)) (generation : Nat) (job : Job α) : Prop :=
  ∃ earlier later, log = earlier ++ .submitted generation job :: later ∧
    ∀ e ∈ later, ∃ d, e = .returned d ∧ d.generation ≠ generation

/-- Every result that was returned answers the last call before it. -/
def Sound (log : List (Event α)) : Prop :=
  ∀ before d after, log = before ++ .returned d :: after →
    ∃ job, Unanswered before d.generation job ∧ job.value = some d.value

section Log

variable {log : List (Event α)} {e x : Event α} {g g' : Nat} {job job' : Job α} {d : Delivery α}

theorem submissions_concat (log : List (Event α)) (e : Event α) :
    submissions (log ++ [e]) = submissions log ++ e.submission?.toList := by
  cases e <;> simp [submissions, Event.submission?, List.filterMap_cons]

theorem results_concat (log : List (Event α)) (e : Event α) :
    results (log ++ [e]) = results log ++ e.result?.toList := by
  cases e <;> simp [results, Event.result?, List.filterMap_cons]

theorem concat_eq_cases {earlier later : List (Event α)} (h : log ++ [e] = earlier ++ x :: later) :
    (log = earlier ∧ e = x) ∨ ∃ between, log = earlier ++ x :: between ∧ later = between ++ [e] := by
  rcases List.eq_nil_or_concat later with rfl | ⟨between, last, rfl⟩
  · exact .inl (by simpa using h)
  · rw [List.concat_eq_append, ← List.cons_append, ← List.append_assoc] at h
    obtain ⟨hlog, hlast⟩ := List.append_inj' h rfl
    exact .inr ⟨between, hlog, by rw [List.concat_eq_append, hlast]⟩

theorem unanswered_submitted :
    Unanswered (log ++ [.submitted g job]) g' job' ↔ g' = g ∧ job' = job := by
  constructor
  · rintro ⟨earlier, later, heq, hlater⟩
    rcases concat_eq_cases heq with ⟨_, hsame⟩ | ⟨between, _, rfl⟩
    · cases hsame
      exact ⟨rfl, rfl⟩
    · obtain ⟨d, hd, _⟩ := hlater (.submitted g job) (by simp)
      cases hd
  · rintro ⟨rfl, rfl⟩
    exact ⟨log, [], rfl, by simp⟩

theorem not_unanswered_cancelled : ¬Unanswered (log ++ [.cancelled]) g job := by
  rintro ⟨earlier, later, heq, hlater⟩
  rcases concat_eq_cases heq with ⟨_, hsame⟩ | ⟨between, _, rfl⟩
  · cases hsame
  · obtain ⟨d, hd, _⟩ := hlater .cancelled (by simp)
    cases hd

theorem unanswered_returned :
    Unanswered (log ++ [.returned d]) g job ↔ Unanswered log g job ∧ d.generation ≠ g := by
  constructor
  · rintro ⟨earlier, later, heq, hlater⟩
    rcases concat_eq_cases heq with ⟨_, hsame⟩ | ⟨between, rfl, rfl⟩
    · cases hsame
    · obtain ⟨d', hd, hne⟩ := hlater (.returned d) (by simp)
      cases hd
      exact ⟨⟨earlier, between, rfl, fun e he => hlater e (by simp [he])⟩, hne⟩
  · rintro ⟨⟨earlier, later, rfl, hlater⟩, hne⟩
    refine ⟨earlier, later ++ [.returned d], by simp, fun e he => ?_⟩
    rcases List.mem_append.1 he with he | he
    · exact hlater e he
    · exact ⟨d, List.mem_singleton.1 he, hne⟩

theorem Sound.concat (h : Sound log)
    (he : ∀ d, e = .returned d → ∃ job, Unanswered log d.generation job ∧ job.value = some d.value) :
    Sound (log ++ [e]) := by
  intro before d after heq
  rcases concat_eq_cases heq with ⟨rfl, hsame⟩ | ⟨between, hlog, _⟩
  · exact he d hsame
  · exact h before d between hlog

end Log

/-- What a worker may give when it receives: the message it waits for, or nothing. -/
inductive Receives (w : Worker α) : Option (Delivery α) × Worker α → Prop
  | wanted {d : Delivery α} {rest : List (Delivery α)} : d ∈ w.channel → rest ⊆ w.channel →
    w.pending = some d.generation → Receives w (some d, { w with pending := none, channel := rest })
  | nothing {rest : List (Delivery α)} : rest ⊆ w.channel → Receives w (none, { w with channel := rest })

theorem drain_receives (w : Worker α) : Receives w w.drain := by
  rcases drain_cases w with ⟨d, hd, hp, hr⟩ | hr
  · exact hr ▸ .wanted hd (List.nil_subset _) hp
  · exact hr ▸ .nothing (List.nil_subset _)

theorem receive_cases (w : Worker α) (ds : List (Delivery α)) :
    (∃ d ∈ ds, ∃ rest, rest ⊆ ds ∧ w.pending = some d.generation ∧
      w.receive ds = (some d, { w with pending := none, channel := rest })) ∨
      w.receive ds = (none, { w with channel := [] }) := by
  induction ds with
  | nil => exact .inr rfl
  | cons d ds ih =>
    by_cases hp : w.pending = some d.generation
    · left
      exact ⟨d, List.mem_cons_self, ds, List.subset_cons_self d ds, hp, by simp [receive, accept, hp]⟩
    · have hskip : w.receive (d :: ds) = w.receive ds := by simp [receive, accept, hp]
      rw [hskip]
      rcases ih with ⟨wanted, hw, rest, hrest, hp', hr⟩ | hr
      · left
        exact ⟨wanted, List.mem_cons_of_mem d hw, rest, List.subset_cons_of_subset d hrest, hp', hr⟩
      · exact .inr hr

theorem wait_receives (w : Worker α) : Receives w w.wait := by
  unfold wait
  split_ifs
  · rcases receive_cases w w.channel with ⟨d, hd, rest, hrest, hp, hr⟩ | hr
    · exact hr ▸ .wanted hd hrest hp
    · exact hr ▸ .nothing (List.nil_subset _)
  · exact .nothing (List.Subset.refl _)

theorem accept_receives {w : Worker α} {d : Delivery α} {rest : List (Delivery α)} (h : w.channel = d :: rest) :
    Receives w (accept { w with channel := rest } d) := by
  have hrest : rest ⊆ w.channel := h ▸ List.subset_cons_self d rest
  by_cases hp : w.pending = some d.generation
  · simpa [accept, hp] using Receives.wanted (h ▸ List.mem_cons_self) hrest hp
  · simpa [accept, hp] using Receives.nothing hrest

end Worker

def Stage.value? : Stage α → Option α
  | .finished value | .sending value => some value
  | _ => none

namespace Thread

/-- The thread runs this job, and a value on its way to the channel is the job's. -/
structure Runs (thread : Thread α) (job : Job α) : Prop where
  job_eq : thread.job = job
  value_eq : ∀ value, thread.stage.value? = some value → job.value = some value

variable {thread : Thread α} {job : Job α} {latest : Nat} {stage : Stage α} {value : α}

theorem Runs.goesOn (h : thread.Runs job) (hs : thread.step latest = .goesOn stage) :
    Runs { thread with stage := stage } job := by
  refine ⟨h.job_eq, fun value hv => ?_⟩
  rcases step_goesOn hs with ⟨left, rfl⟩ | ⟨v, hjob, rfl⟩ | ⟨v, hstage, rfl⟩
  · cases hv
  · rwa [← h.job_eq, hjob]
  · exact h.value_eq value (hstage ▸ hv)

theorem Runs.sends (h : thread.Runs job) (hs : thread.step latest = .sends value) :
    job.value = some value :=
  h.value_eq value (by rw [step_sends hs]; rfl)

end Thread

namespace Worker

/-- The generations of a history up to `latest`. The latest is returned only when nothing is pending. -/
structure Numbered (log : List (Event α)) (latest : Nat) (idle : Prop) : Prop where
  le_calls : latest ≤ log.countP Event.isCall
  submissions_le : ∀ g ∈ submissions log, g ≤ latest
  submissions_increase : (submissions log).Pairwise (· < ·)
  results_le : ∀ d ∈ results log, d.generation < latest ∨ d.generation = latest ∧ idle
  results_increase : (results log).Pairwise (fun a b => a.generation < b.generation)

namespace Numbered

variable {log : List (Event α)} {latest : Nat} {idle next : Prop}

theorem results_lt (h : Numbered log latest idle) : ∀ d ∈ results log, d.generation < latest + 1 := by
  intro d hd
  have hle := h.results_le d hd
  omega

theorem submitted (h : Numbered log latest idle) (job : Job α) :
    Numbered (log ++ [.submitted (latest + 1) job]) (latest + 1) next where
  le_calls := by simpa [Event.isCall] using h.le_calls
  submissions_le g hg := by
    rw [submissions_concat] at hg
    rcases List.mem_append.1 hg with hg | hg
    · exact Nat.le_succ_of_le (h.submissions_le g hg)
    · exact Nat.le_of_eq (List.mem_singleton.1 hg)
  submissions_increase := by
    rw [submissions_concat]
    refine List.pairwise_append.2 ⟨h.submissions_increase, List.pairwise_singleton _ _, fun g hg g' hg' => ?_⟩
    rw [List.mem_singleton.1 hg']
    exact Nat.lt_succ_of_le (h.submissions_le g hg)
  results_le d hd := .inl (h.results_lt d (by simpa [results_concat, Event.result?] using hd))
  results_increase := by simpa [results_concat, Event.result?] using h.results_increase

theorem cancelled (h : Numbered log latest idle) : Numbered (log ++ [.cancelled]) (latest + 1) next where
  le_calls := by simpa [Event.isCall] using h.le_calls
  submissions_le g hg :=
    Nat.le_succ_of_le (h.submissions_le g (by simpa [submissions_concat, Event.submission?] using hg))
  submissions_increase := by simpa [submissions_concat, Event.submission?] using h.submissions_increase
  results_le d hd := .inl (h.results_lt d (by simpa [results_concat, Event.result?] using hd))
  results_increase := by simpa [results_concat, Event.result?] using h.results_increase

theorem returned {d : Delivery α} (h : Numbered log latest idle) (hp : ¬idle) (hd : d.generation = latest)
    (hn : next) : Numbered (log ++ [.returned d]) latest next := by
  have hlt : ∀ a ∈ results log, a.generation < latest :=
    fun a ha => (h.results_le a ha).resolve_right fun hidle => hp hidle.2
  constructor
  · simpa [Event.isCall] using h.le_calls
  · simpa [submissions_concat, Event.submission?] using h.submissions_le
  · simpa [submissions_concat, Event.submission?] using h.submissions_increase
  · intro a ha
    rw [results_concat] at ha
    rcases List.mem_append.1 ha with ha | ha
    · exact .inl (hlt a ha)
    · exact .inr ⟨by rw [List.mem_singleton.1 ha, hd], hn⟩
  · rw [results_concat]
    refine List.pairwise_append.2 ⟨h.results_increase, List.pairwise_singleton _ _, fun a ha b hb => ?_⟩
    rw [List.mem_singleton.1 hb, hd]
    exact hlt a ha

end Numbered

/-- The worker is where its history left it. -/
structure Follows (w : Worker α) (log : List (Event α)) : Prop extends Ordered w where
  numbered : Numbered log w.latest (w.pending = none)
  pending_iff : ∀ g, w.pending = some g ↔ ∃ job, Unanswered log g job
  thread_runs : ∀ g job, Unanswered log g job → ∀ thread ∈ w.threads, thread.generation = g → thread.Runs job
  message_value : ∀ g job, Unanswered log g job → ∀ d ∈ w.channel, d.generation = g → job.value = some d.value
  sound : Sound log

theorem follows_new (delay : Duration) : Follows ({ delay := delay } : Worker α) [] where
  toOrdered := ordered_new delay
  numbered := ⟨Nat.zero_le _, by simp [submissions], .nil, by simp [results], .nil⟩
  pending_iff g := by simp [Unanswered]
  thread_runs := by simp
  message_value := by simp
  sound before d after h := by simp at h

namespace Follows

variable {w : Worker α} {log : List (Event α)} {i : Nat} {elapsed : Duration}

theorem advance (h : w.Follows log) : (w.advance i elapsed).Follows log where
  toOrdered := h.toOrdered.advance
  numbered := by simpa using h.numbered
  pending_iff := by simpa using h.pending_iff
  thread_runs g job hu thread ht hg := by
    rcases mem_advance_threads ht with hm | ⟨before, hb, stage, hs, rfl⟩
    · exact h.thread_runs g job hu thread hm hg
    · exact (h.thread_runs g job hu before hb hg).goesOn hs
  message_value g job hu d hd hg := by
    rcases mem_advance_channel hd with hm | ⟨thread, ht, value, hs, rfl⟩
    · exact h.message_value g job hu d hm hg
    · exact (h.thread_runs g job hu thread ht hg).sends hs
  sound := h.sound

theorem advanceAll (h : w.Follows log) (steps : List (Nat × Duration)) :
    (w.advanceAll steps).Follows log := by
  induction steps generalizing w with
  | nil => exact h
  | cons step steps ih => exact ih h.advance

theorem next_eq_succ (h : w.Follows log) (hl : log.countP Event.isCall < maxGeneration) :
    w.nextGeneration = w.latest + 1 := by
  have hn := h.next_eq
  have hle := h.numbered.le_calls
  omega

/-- A new generation is above all that are in use, as long as the numbers last. -/
theorem submit (h : w.Follows log) (hl : log.countP Event.isCall < maxGeneration) (job : Job α) :
    (w.submit job).Follows (log ++ [.submitted w.nextGeneration job]) := by
  have hnext := h.next_eq_succ hl
  refine ⟨h.toOrdered.submit job, ?_, ?_, ?_, ?_, ?_⟩
  · show Numbered _ w.nextGeneration _
    rw [hnext]
    exact h.numbered.submitted job
  · intro g
    simp [unanswered_submitted, Worker.submit, eq_comm]
  · intro g job' hu thread ht hg
    obtain ⟨rfl, rfl⟩ := unanswered_submitted.1 hu
    rcases List.mem_append.1 ht with hm | hm
    · have hle := h.thread_le thread hm
      omega
    · rw [List.mem_singleton.1 hm]
      exact ⟨rfl, by simp [Stage.value?]⟩
  · intro g job' hu d hd hg
    obtain ⟨rfl, rfl⟩ := unanswered_submitted.1 hu
    have hle := h.message_le d hd
    omega
  · exact h.sound.concat fun d hd => by cases hd

theorem cancel (h : w.Follows log) (hl : log.countP Event.isCall < maxGeneration) :
    w.cancel.Follows (log ++ [.cancelled]) := by
  have hnext := h.next_eq_succ hl
  refine ⟨h.toOrdered.cancel, ?_, ?_, ?_, ?_, ?_⟩
  · show Numbered _ w.nextGeneration _
    rw [hnext]
    exact h.numbered.cancelled
  · intro g
    simp [not_unanswered_cancelled, Worker.cancel]
  · exact fun g job hu => absurd hu not_unanswered_cancelled
  · exact fun g job hu => absurd hu not_unanswered_cancelled
  · exact h.sound.concat fun d hd => by cases hd

/-- The message waited for has the generation and the value of the submission that waits. -/
theorem receives {result : Option (Delivery α) × Worker α} (h : w.Follows log) (hr : w.Receives result) :
    (answer result).1.Follows (log ++ (answer result).2) := by
  cases hr with
  | @wanted d rest hd hrest hp =>
    obtain ⟨job, hu⟩ := (h.pending_iff _).1 hp
    have hlatest : d.generation = w.latest := h.pending_eq _ hp
    have hnone : ∀ g job, ¬Unanswered (log ++ [.returned d]) g job := by
      intro g job' hu'
      obtain ⟨hopen, hne⟩ := unanswered_returned.1 hu'
      have hg : w.pending = some g := (h.pending_iff g).2 ⟨job', hopen⟩
      exact hne (Option.some.inj (hp.symm.trans hg))
    refine ⟨⟨h.latest_le, h.next_eq, h.thread_le, fun e he => h.message_le e (hrest he), by simp [answer]⟩,
      ?_, ?_, ?_, ?_, ?_⟩
    · exact h.numbered.returned (by simp [hp]) hlatest rfl
    · intro g
      simp [answer, hnone]
    · exact fun g job hu' => absurd hu' (hnone g job)
    · exact fun g job hu' => absurd hu' (hnone g job)
    · apply h.sound.concat
      rintro e he
      cases he
      exact ⟨job, hu, h.message_value _ job hu d hd rfl⟩
  | nothing hrest =>
    simp only [answer, Option.toList_none, List.map_nil, List.append_nil]
    exact ⟨⟨h.latest_le, h.next_eq, h.thread_le, fun e he => h.message_le e (hrest he), h.pending_eq⟩,
      h.numbered, h.pending_iff, h.thread_runs, fun g job hu e he => h.message_value g job hu e (hrest he),
      h.sound⟩

theorem drainAmid (h : w.Follows log) (gaps : List (List (Nat × Duration))) :
    (answer (w.drainAmid gaps)).1.Follows (log ++ (answer (w.drainAmid gaps)).2) := by
  obtain ⟨k, hk⟩ := drainAmid_eq w gaps
  rw [hk]
  exact (h.advanceAll _).receives (drain_receives _)

theorem waitAmid (h : w.Follows log) (patient : Bool) (gaps : List (List (Nat × Duration))) :
    (answer (w.waitAmid patient gaps)).1.Follows (log ++ (answer (w.waitAmid patient gaps)).2) := by
  induction gaps generalizing w with
  | nil =>
    unfold Worker.waitAmid
    split_ifs
    · exact h.receives (wait_receives w)
    · exact h.receives (.nothing (List.Subset.refl _))
  | cons gap gaps ih =>
    have hmoved := h.advanceAll gap
    unfold Worker.waitAmid
    dsimp only
    split_ifs
    · cases hc : (w.advanceAll gap).channel with
      | nil => exact ih hmoved
      | cons d rest =>
        have hfirst := hmoved.receives (accept_receives hc)
        dsimp only
        cases ha : accept { w.advanceAll gap with channel := rest } d with
        | mk result next =>
          rw [ha] at hfirst
          cases result with
          | some wanted => exact hfirst
          | none =>
            rw [answer, Option.toList_none, List.map_nil, List.append_nil] at hfirst
            exact ih hfirst
    · exact hmoved.receives (.nothing (List.Subset.refl _))

theorem act (h : w.Follows log) (a : Act α)
    (hl : log.countP Event.isCall + [a].countP Act.issues < maxGeneration) :
    (w.act a).1.Follows (log ++ (w.act a).2) := by
  cases a with
  | submit job => exact h.submit (by omega) job
  | cancel => exact h.cancel (by omega)
  | drain gaps => exact h.drainAmid gaps
  | wait gaps patient => exact h.waitAmid patient gaps
  | advance i elapsed => simpa [Worker.act] using h.advance

theorem history (h : w.Follows log) (acts : List (Act α))
    (hl : log.countP Event.isCall + acts.countP Act.issues < maxGeneration) :
    (w.history acts).1.Follows (log ++ (w.history acts).2) := by
  induction acts generalizing w log with
  | nil => simpa [Worker.history] using h
  | cons a acts ih =>
    rw [← List.singleton_append, List.countP_append] at hl
    have hcalls : (w.act a).2.countP Event.isCall ≤ [a].countP Act.issues := act_calls w a
    have hnext := ih (h.act a (by omega)) (by rw [List.countP_append]; omega)
    rwa [List.append_assoc] at hnext

end Follows

/-- Whatever is submitted and cancelled, and whenever the threads take their steps: a result
that is returned answers the last call of all with the generation and the value of that
submission, generations of submissions and of results increase, and something is pending
exactly when the last call is a submission without a result. -/
theorem returned_answers_last_call (delay : Duration) (acts : List (Act α))
    (h : acts.countP Act.issues < maxGeneration) :
    let run := ({ delay := delay } : Worker α).history acts
    (∀ before d after, run.2 = before ++ .returned d :: after →
        ∃ job, Unanswered before d.generation job ∧ job.value = some d.value) ∧
      (submissions run.2).Pairwise (· < ·) ∧
      (results run.2).Pairwise (fun a b => a.generation < b.generation) ∧
      (run.1.isPending = true ↔ ∃ generation job, Unanswered run.2 generation job) := by
  intro run
  have hrun : run.1.Follows run.2 := (follows_new delay).history acts (by simpa using h)
  refine ⟨hrun.sound, hrun.numbered.submissions_increase, hrun.numbered.results_increase, ?_⟩
  rw [isPending, Option.isSome_iff_exists]
  exact exists_congr hrun.pending_iff

/-- The first thread has passed its last look when it is superseded, and sends late. The wait
passes over its message. -/
def lateSend : List (Act Nat) :=
  let step : Nat × Duration := (0, ⟨1⟩)
  [.submit ⟨0, some 10⟩, .advance 0 ⟨1⟩, .advance 0 ⟨1⟩, .advance 0 ⟨1⟩, .submit ⟨1, some 20⟩,
    .wait [[step], [step, step, step, step, step]] false]

theorem returned_after_lateSend :
    let run := ({ delay := ⟨0⟩ } : Worker Nat).history lateSend
    let calls : List (Event Nat) := [.submitted 1 ⟨0, some 10⟩, .submitted 2 ⟨1, some 20⟩]
    run.2 = calls ++ [.returned ⟨2, 20, ⟨1⟩⟩] ∧ run.1.isPending = false ∧
      ∃ job, Unanswered calls 2 job ∧ job.value = some 20 := by
  intro run calls
  have hlog : run.2 = calls ++ [.returned ⟨2, 20, ⟨1⟩⟩] := rfl
  exact ⟨hlog, rfl, (returned_answers_last_call ⟨0⟩ lateSend (by decide)).1 calls _ [] hlog⟩

end Worker
end AsmOutline
