import AsmOutline.Proofs.Breaker
import AsmOutline.Proofs.DocumentSides
import AsmOutline.Proofs.LabelConsistency

/-! # The trackers as breakers

The size of a source and the time of a computation trip the fold tracker, the time alone
trips the label tracker. A tracker that is off has nothing published, and no call but a
reset changes that or raises a notice.
-/
namespace AsmOutline

namespace FoldTracker

inductive Call
  | checkSize (source : Source)
  | recompute (source : Source) (elapsed : Duration)
  | install (set : RegionSet) (elapsed : Duration)
  | reset (source : Source) (on : Bool) (elapsed : Duration)
  | takeNotices

def Call.isReset : Call → Bool
  | .reset _ _ _ => true
  | _ => false

def after (tracker : FoldTracker) : Call → FoldTracker
  | .checkSize source => (tracker.checkSize source).2
  | .recompute source elapsed => tracker.recompute source elapsed
  | .install set elapsed => tracker.install set elapsed
  | .reset source on elapsed => tracker.reset source on elapsed
  | .takeNotices => tracker.takeNotices.2

def met (tracker : FoldTracker) : Call → FoldTracker
  | .reset _ on _ => tracker.cleared on
  | _ => tracker

def handedOut (tracker : FoldTracker) : Call → List Notice
  | .takeNotices => tracker.takeNotices.1
  | _ => []

def isTooLarge (tracker : FoldTracker) (source : Source) : Bool :=
  tracker.rules.maxLines < source.lineCount

def isTooSlow (tracker : FoldTracker) (elapsed : Duration) : Bool :=
  elapsed.exceeds tracker.limits.threshold

def exceeds (tracker : FoldTracker) : Call → Bool
  | .checkSize source => tracker.isTooLarge source
  | .recompute source elapsed => tracker.isTooLarge source || tracker.isTooSlow elapsed
  | .install _ elapsed => tracker.isTooSlow elapsed
  | .reset source _ elapsed => tracker.isTooLarge source || tracker.isTooSlow elapsed
  | .takeNotices => false

/-- All that can become of a tracker that meets its limits. -/
inductive Meets (tracker : FoldTracker) (exceeded : Bool) : FoldTracker → Prop
  | idle (hoff : tracker.isEnabled = false) : Meets tracker exceeded tracker
  | within (hon : tracker.isEnabled = true) (hfits : exceeded = false) (set : RegionSet) (delta : Option Span) :
      Meets tracker exceeded { tracker with published := set, delta := delta }
  | tripped (hon : tracker.isEnabled = true) (hover : exceeded = true) (status : FoldStatus)
      (hstatus : status ≠ .enabled) (notice : Notice) :
      Meets tracker exceeded (tracker.disable status notice)

variable {tracker next : FoldTracker} {exceeded : Bool}

theorem meets_checkSize (tracker : FoldTracker) (source : Source) :
    Meets tracker (tracker.isTooLarge source) (tracker.checkSize source).2 := by
  rcases checkSize_cases tracker source with ⟨hon, hfits, hc⟩ | ⟨hoff, hc⟩ | ⟨hon, hlarge, hc⟩
  · rw [hc]
    exact .within hon (decide_eq_false (Nat.not_lt.2 hfits)) tracker.published tracker.delta
  · rw [hc]
    exact .idle hoff
  · rw [hc]
    exact .tripped hon (decide_eq_true hlarge) _ (by decide) _

theorem meets_install (tracker : FoldTracker) (set : RegionSet) (elapsed : Duration) :
    Meets tracker (tracker.isTooSlow elapsed) (tracker.install set elapsed) := by
  unfold install isTooSlow
  split_ifs with hon hslow
  · exact .tripped hon hslow _ (by decide) _
  · exact .within hon (eq_false_of_ne_true hslow) _ _
  · exact .idle (eq_false_of_ne_true hon)

/-- The size is checked first: a source that is too large is never computed. -/
theorem meets_recompute (tracker : FoldTracker) (source : Source) (elapsed : Duration) :
    Meets tracker (tracker.isTooLarge source || tracker.isTooSlow elapsed) (tracker.recompute source elapsed) := by
  unfold recompute
  rcases checkSize_cases tracker source with ⟨_, hfits, hc⟩ | ⟨hoff, hc⟩ | ⟨hon, hlarge, hc⟩
  · have hsize : tracker.isTooLarge source = false := decide_eq_false (Nat.not_lt.2 hfits)
    rw [hc, hsize, Bool.false_or]
    exact meets_install tracker _ elapsed
  · rw [hc]
    exact .idle hoff
  · have hsize : tracker.isTooLarge source = true := decide_eq_true hlarge
    rw [hc, hsize, Bool.true_or]
    exact .tripped hon rfl _ (by decide) _

/-- A call hands out the notices, or it meets the limits. -/
theorem meets_after (tracker : FoldTracker) (call : Call) :
    call = .takeNotices ∨
      tracker.handedOut call = [] ∧ Meets (tracker.met call) (tracker.exceeds call) (tracker.after call) := by
  cases call with
  | checkSize source => exact .inr ⟨rfl, meets_checkSize tracker source⟩
  | recompute source elapsed => exact .inr ⟨rfl, meets_recompute tracker source elapsed⟩
  | install set elapsed => exact .inr ⟨rfl, meets_install tracker set elapsed⟩
  | reset source on elapsed => exact .inr ⟨rfl, meets_recompute (tracker.cleared on) source elapsed⟩
  | takeNotices => exact .inl rfl

theorem Meets.isEnabled_eq (h : Meets tracker exceeded next) :
    next.isEnabled = (tracker.isEnabled && !exceeded) := by
  cases h with
  | idle hoff => rw [hoff, Bool.false_and]
  | within hon hfits set delta => rw [hfits, Bool.not_false, Bool.and_true]; rfl
  | tripped hon hover status hstatus notice =>
    rw [hover, Bool.not_true, Bool.and_false]
    exact beq_eq_false_iff_ne.2 hstatus

theorem Meets.notices_eq (h : Meets tracker exceeded next) :
    ∃ raised, next.notices = tracker.notices ++ raised ∧
      raised.length = (tracker.isEnabled && exceeded).toNat := by
  cases h with
  | idle hoff => exact ⟨[], (List.append_nil _).symm, by rw [hoff]; rfl⟩
  | within hon hfits set delta => exact ⟨[], (List.append_nil _).symm, by rw [hon, hfits]; rfl⟩
  | tripped hon hover status hstatus notice => exact ⟨[notice], rfl, by rw [hon, hover]; rfl⟩

theorem met_eq (tracker : FoldTracker) (call : Call) (hc : call.isReset = false) : tracker.met call = tracker := by
  cases call with
  | reset source on elapsed => cases hc
  | _ => rfl

theorem met_notices (tracker : FoldTracker) (call : Call) : (tracker.met call).notices = tracker.notices := by
  cases call <;> rfl

def breaker : Breaker FoldTracker Call where
  after := after
  met := met
  isOn := isEnabled
  isReset := Call.isReset
  exceeds := exceeds
  waiting := notices
  handedOut := handedOut
  met_eq := met_eq
  isOn_after tracker call := by
    rcases tracker.meets_after call with rfl | ⟨_, h⟩
    · exact (Bool.and_true _).symm
    · exact h.isEnabled_eq
  raises tracker call := by
    rcases tracker.meets_after call with rfl | ⟨hnone, h⟩
    · exact ⟨[], rfl, by simp [exceeds]⟩
    · rw [hnone, List.nil_append, ← tracker.met_notices call]
      exact h.notices_eq

/-- A tracker that is off has nothing published. -/
def Cleared (tracker : FoldTracker) : Prop :=
  tracker.isEnabled = false → tracker.published = {} ∧ tracker.delta = none

theorem Cleared.after (h : Cleared tracker) (call : Call) : Cleared (tracker.after call) := by
  rcases tracker.meets_after call with rfl | ⟨_, hmeets⟩
  · exact h
  · have hmet : Cleared (tracker.met call) := by
      cases call with
      | reset source on elapsed => exact fun _ => ⟨rfl, rfl⟩
      | _ => exact h
    generalize tracker.met call = before at hmeets hmet
    generalize tracker.after call = next at hmeets
    cases hmeets with
    | idle hoff => exact hmet
    | within hon hfits set delta => exact fun hoff => absurd (hon.symm.trans hoff) (by decide)
    | tripped hon hover status hstatus notice => exact fun _ => ⟨rfl, rfl⟩

theorem Meets.eq_of_off (h : Meets tracker exceeded next) (hoff : tracker.isEnabled = false) : next = tracker := by
  cases h with
  | idle _ => rfl
  | within hon _ _ _ => exact absurd (hon.symm.trans hoff) (by decide)
  | tripped hon _ _ _ _ => exact absurd (hon.symm.trans hoff) (by decide)

/-- Nothing is published, and no call but a reset changes that. -/
structure Dormant (tracker : FoldTracker) : Prop where
  published : tracker.published = {}
  delta : tracker.delta = none
  kept : ∀ call : Call, call.isReset = false → (tracker.after call).status = tracker.status ∧
    (tracker.after call).published = tracker.published ∧ (tracker.after call).delta = tracker.delta

theorem Cleared.dormant (h : Cleared tracker) (hoff : tracker.isEnabled = false) : Dormant tracker where
  published := (h hoff).1
  delta := (h hoff).2
  kept call hc := by
    rcases tracker.meets_after call with rfl | ⟨_, hmeets⟩
    · exact ⟨rfl, rfl, rfl⟩
    · rw [tracker.met_eq call hc] at hmeets
      rw [hmeets.eq_of_off hoff]
      exact ⟨rfl, rfl, rfl⟩

end FoldTracker

namespace LabelTracker

inductive Call
  | update (change : Update) (elapsed : Duration)
  | install (index : LabelIndex) (elapsed : Duration)
  | takeNotices

def Call.isReset : Call → Bool
  | .update (.reset _) _ => true
  | _ => false

def after (tracker : LabelTracker) : Call → LabelTracker
  | .update change elapsed => tracker.update change elapsed
  | .install index elapsed => tracker.install index elapsed
  | .takeNotices => tracker.takeNotices.2

def met (tracker : LabelTracker) : Call → LabelTracker
  | .update (.reset _) _ => { tracker with enabled := true, index := {} }
  | _ => tracker

def handedOut (tracker : LabelTracker) : Call → List Notice
  | .takeNotices => tracker.takeNotices.1
  | _ => []

def exceeds (tracker : LabelTracker) : Call → Bool
  | .update _ elapsed => elapsed.exceeds tracker.limits.threshold
  | .install _ elapsed => elapsed.exceeds tracker.limits.threshold
  | .takeNotices => false

variable {tracker : LabelTracker}

/-- Every update publishes an index, found in place or built anew. -/
theorem update_eq_install (tracker : LabelTracker) (change : Update) (elapsed : Duration) :
    ∃ index, tracker.update change elapsed = (tracker.met (.update change elapsed)).install index elapsed := by
  cases change with
  | rebuild source => exact ⟨_, rfl⟩
  | reset source => exact ⟨_, rfl⟩
  | edit change =>
    by_cases hcount : change.growth ≠ 0 ∨ tracker.index.lineCount ≠ change.source.lineCount
    · exact ⟨_, if_pos hcount⟩
    · exact ⟨_, if_neg hcount⟩

/-- A call hands out the notices, or it publishes an index and so meets the limit. -/
theorem after_eq_install (tracker : LabelTracker) (call : Call) :
    call = .takeNotices ∨ tracker.handedOut call = [] ∧
      ∃ index elapsed, tracker.exceeds call = elapsed.exceeds (tracker.met call).limits.threshold ∧
        tracker.after call = (tracker.met call).install index elapsed := by
  cases call with
  | update change elapsed =>
    obtain ⟨index, hindex⟩ := tracker.update_eq_install change elapsed
    refine .inr ⟨rfl, index, elapsed, ?_, hindex⟩
    cases change <;> rfl
  | install index elapsed => exact .inr ⟨rfl, index, elapsed, rfl, rfl⟩
  | takeNotices => exact .inl rfl

theorem install_enabled (tracker : LabelTracker) (index : LabelIndex) (elapsed : Duration) :
    (tracker.install index elapsed).enabled = (tracker.enabled && !elapsed.exceeds tracker.limits.threshold) := by
  rcases tracker.install_cases index elapsed with ⟨hoff, hin⟩ | ⟨hon, hquick, hin⟩ | ⟨hon, hslow, hin⟩
  · rw [hin, hoff, Bool.false_and]
  · rw [hin, hquick, Bool.not_false, Bool.and_true]
  · rw [hin, hslow, Bool.not_true, Bool.and_false]

theorem install_notices (tracker : LabelTracker) (index : LabelIndex) (elapsed : Duration) :
    ∃ raised, (tracker.install index elapsed).notices = tracker.notices ++ raised ∧
      raised.length = (tracker.enabled && elapsed.exceeds tracker.limits.threshold).toNat := by
  rcases tracker.install_cases index elapsed with ⟨hoff, hin⟩ | ⟨hon, hquick, hin⟩ | ⟨hon, hslow, hin⟩
  · exact ⟨[], by rw [hin, List.append_nil], by rw [hoff]; rfl⟩
  · exact ⟨[], by rw [hin, List.append_nil], by rw [hon, hquick]; rfl⟩
  · exact ⟨[.labelsTooSlow elapsed], by rw [hin], by rw [hon, hslow]; rfl⟩

theorem met_eq (tracker : LabelTracker) (call : Call) (hc : call.isReset = false) : tracker.met call = tracker := by
  cases call with
  | update change elapsed =>
    cases change with
    | reset source => cases hc
    | _ => rfl
  | _ => rfl

theorem met_notices (tracker : LabelTracker) (call : Call) : (tracker.met call).notices = tracker.notices := by
  cases call with
  | update change elapsed => cases change <;> rfl
  | _ => rfl

def breaker : Breaker LabelTracker Call where
  after := after
  met := met
  isOn := enabled
  isReset := Call.isReset
  exceeds := exceeds
  waiting := notices
  handedOut := handedOut
  met_eq := met_eq
  isOn_after tracker call := by
    rcases tracker.after_eq_install call with rfl | ⟨_, index, elapsed, hlimit, hafter⟩
    · exact (Bool.and_true _).symm
    · rw [hafter, hlimit]
      exact install_enabled _ index elapsed
  raises tracker call := by
    rcases tracker.after_eq_install call with rfl | ⟨hnone, index, elapsed, hlimit, hafter⟩
    · exact ⟨[], rfl, by simp [exceeds]⟩
    · rw [hnone, List.nil_append, hafter, hlimit, ← tracker.met_notices call]
      exact install_notices _ index elapsed

/-- A tracker that is off has the empty index. -/
def Cleared (tracker : LabelTracker) : Prop :=
  tracker.enabled = false → tracker.index = {}

theorem Cleared.after (h : Cleared tracker) (call : Call) : Cleared (tracker.after call) := by
  rcases tracker.after_eq_install call with rfl | ⟨_, index, elapsed, _, hafter⟩
  · exact h
  · have hmet : Cleared (tracker.met call) := by
      unfold met
      split
      · exact fun _ => rfl
      · exact h
    rw [hafter]
    rcases (tracker.met call).install_cases index elapsed with ⟨_, hin⟩ | ⟨hon, _, hin⟩ | ⟨_, _, hin⟩
    · rwa [hin]
    · rw [hin]
      exact fun hoff => absurd (hon.symm.trans hoff) (by decide)
    · rw [hin]
      exact fun _ => rfl

/-- The index is empty, nothing is reported, and no call but a reset changes that. -/
structure Dormant (tracker : LabelTracker) : Prop where
  index : tracker.index = {}
  diagnostics : ∀ limit, tracker.diagnostics limit = []
  verdict : ∀ line token text, tracker.verdict line token text = .ok
  kept : ∀ call : Call, call.isReset = false →
    (tracker.after call).enabled = tracker.enabled ∧ (tracker.after call).index = tracker.index

theorem Cleared.dormant (h : Cleared tracker) (hoff : tracker.enabled = false) : Dormant tracker where
  index := h hoff
  diagnostics limit := by
    rw [LabelTracker.diagnostics, hoff]
    rfl
  verdict line token text := by
    rw [LabelTracker.verdict, hoff]
    rfl
  kept call hc := by
    rcases tracker.after_eq_install call with rfl | ⟨_, index, elapsed, _, hafter⟩
    · exact ⟨rfl, rfl⟩
    · rw [hafter, tracker.met_eq call hc, install, if_neg (by simp [hoff])]
      exact ⟨rfl, rfl⟩

end LabelTracker

/-- Over every run of calls, whatever they bring and however long they take: a tracker that
is off is dormant, and it has raised one notice for each time that a limit switched it off. -/
theorem trackers_trip_once (t : Tokenizer) (rules : FoldRules) (limits : SpeedLimits) :
    (∀ on : Bool,
      let start : FoldTracker := { tokenizer := t, rules := rules, limits := limits, status := .initial on }
      FoldTracker.breaker.TripsOnce start ∧
        ∀ calls, (FoldTracker.breaker.run start calls).status ≠ .enabled →
          (FoldTracker.breaker.run start calls).Dormant) ∧
    let start : LabelTracker := { tokenizer := t, limits := limits }
    LabelTracker.breaker.TripsOnce start ∧
      ∀ calls, (LabelTracker.breaker.run start calls).enabled = false →
        (LabelTracker.breaker.run start calls).Dormant := by
  constructor
  · intro on start
    refine ⟨Breaker.tripsOnce rfl, fun calls hoff => ?_⟩
    have hstart : start.Cleared := fun _ => ⟨rfl, rfl⟩
    have hrun := FoldTracker.breaker.run_keeps (fun _ call h => h.after call) hstart calls
    exact hrun.dormant (beq_eq_false_iff_ne.2 hoff)
  · intro start
    refine ⟨Breaker.tripsOnce rfl, fun calls hoff => ?_⟩
    have hstart : start.Cleared := fun _ => rfl
    have hrun := LabelTracker.breaker.run_keeps (fun _ call h => h.after call) hstart calls
    exact hrun.dormant hoff

/-- A limit is met, the reset after it meets it again at once, and what comes later is not
published. -/
def FoldTracker.tripAgain : List FoldTracker.Call :=
  let source : Source := ⟨["a:".toList, "b:".toList]⟩
  [.recompute source ⟨1⟩, .checkSize source, .takeNotices, .reset source true ⟨1⟩, .install {} ⟨1⟩]

/-- The same of labels, where only the time counts. -/
def LabelTracker.tripAgain : List LabelTracker.Call :=
  let source : Source := ⟨["a:".toList, "b:".toList]⟩
  let slow : Duration := .ofParts 11 0
  [.update (.rebuild source) slow, .takeNotices, .update (.reset source) slow, .update (.rebuild source) slow]

theorem trackers_trip_once_at_tripAgain :
    let t : Tokenizer := ⟨.empty, {}⟩
    let folds : FoldTracker := { tokenizer := t, rules := { maxLines := 1 }, limits := {}, status := .initial true }
    let labels : LabelTracker := { tokenizer := t, limits := {} }
    (FoldTracker.breaker.run folds FoldTracker.tripAgain).status = .tooLarge ∧
      (FoldTracker.breaker.run folds FoldTracker.tripAgain).Dormant ∧
      (FoldTracker.breaker.ledger folds FoldTracker.tripAgain).length = 2 ∧
      (LabelTracker.breaker.run labels LabelTracker.tripAgain).enabled = false ∧
      (LabelTracker.breaker.run labels LabelTracker.tripAgain).Dormant ∧
      (LabelTracker.breaker.ledger labels LabelTracker.tripAgain).length = 2 := by
  intro t folds labels
  obtain ⟨hfolds, hlabels⟩ := trackers_trip_once t { maxLines := 1 } {}
  have hlarge : (FoldTracker.breaker.run folds FoldTracker.tripAgain).status = .tooLarge := by decide
  have hslow : (LabelTracker.breaker.run labels LabelTracker.tripAgain).enabled = false := by decide
  refine ⟨hlarge, ?_, ?_, hslow, ?_, ?_⟩
  · apply (hfolds true).2
    rw [hlarge]
    decide
  · rw [(hfolds true).1.notices]
    decide
  · exact hlabels.2 _ hslow
  · rw [hlabels.1.notices]
    decide

end AsmOutline
