import AsmOutline.Proofs.TrackerBreakers
import Mathlib.Order.Bounds.Basic

/-! # What changed between two sets of regions

The delta of a tracker spans the regions that are in only one of the last two sets it has
published. It starts with the first line and stops with the last line of these, so that it is
determined by them and does not depend on which of the two sets is the older. A tracker that
is reset or that exceeds a limit starts again from the empty set.
-/
namespace AsmOutline
namespace Region

variable {changed : Set Region} {delta : Option Span} {old new : List Region}

/-- The lines from the first to the last of some regions, or nothing where there are none. -/
structure IsHull (changed : Set Region) (delta : Option Span) : Prop where
  none_iff : delta = none ↔ changed = ∅
  start_least : ∀ span, delta = some span → IsLeast (startLine '' changed) span.start
  stop_greatest : ∀ span, delta = some span → IsGreatest (endLine '' changed) span.stop

theorem isHull_empty : IsHull ∅ none where
  none_iff := iff_of_true rfl rfl
  start_least _ h := nomatch h
  stop_greatest _ h := nomatch h

theorem isHull_singleton (r : Region) : IsHull {r} (some ⟨r.startLine, r.endLine⟩) where
  none_iff := iff_of_false (Option.some_ne_none _) (Set.singleton_ne_empty r)
  start_least span h := by
    cases h
    rw [Set.image_singleton]
    exact isLeast_singleton
  stop_greatest span h := by
    cases h
    rw [Set.image_singleton]
    exact isGreatest_singleton

theorem IsHull.hull (h : IsHull changed delta) (r : Region) : IsHull (insert r changed) (hull delta r) := by
  cases delta with
  | none =>
    rw [h.none_iff.1 rfl, insert_empty_eq]
    exact isHull_singleton r
  | some span =>
    refine ⟨iff_of_false (Option.some_ne_none _) (Set.insert_nonempty r changed).ne_empty, ?_, ?_⟩
    · intro grown hgrown
      cases hgrown
      rw [Set.image_insert_eq, min_comm]
      exact (h.start_least span rfl).insert r.startLine
    · intro grown hgrown
      cases hgrown
      rw [Set.image_insert_eq, max_comm]
      exact (h.stop_greatest span rfl).insert r.endLine

theorem IsHull.foldl (h : IsHull changed delta) (rs : List Region) :
    IsHull (changed ∪ {r | r ∈ rs}) (rs.foldl Region.hull delta) := by
  induction rs generalizing changed delta with
  | nil => simpa using h
  | cons r rs ih =>
    have hset : changed ∪ {x | x ∈ r :: rs} = insert r changed ∪ {x | x ∈ rs} := by
      ext x
      simp only [Set.mem_union, Set.mem_ofPred_eq, List.mem_cons, Set.mem_insert_iff]
      tauto
    rw [hset, List.foldl_cons]
    exact ih (h.hull r)

theorem IsHull.unique {other : Option Span} (h : IsHull changed delta) (ho : IsHull changed other) :
    delta = other := by
  cases delta with
  | none => exact (ho.none_iff.2 (h.none_iff.1 rfl)).symm
  | some span =>
    cases other with
    | none => exact absurd (h.none_iff.2 (ho.none_iff.1 rfl)) (Option.some_ne_none _)
    | some far =>
      have hstart := (h.start_least span rfl).unique (ho.start_least far rfl)
      have hstop := (h.stop_greatest span rfl).unique (ho.stop_greatest far rfl)
      exact congrArg some (congrArg₂ Span.mk hstart hstop)

/-- The regions in exactly one of two lists. -/
def changes (old new : List Region) : Set Region :=
  {r | Xor (r ∈ old) (r ∈ new)}

theorem changes_comm (old new : List Region) : changes old new = changes new old := by
  ext r
  exact iff_of_eq (xor_comm (r ∈ old) (r ∈ new))

theorem not_mem_changes {r : Region} : r ∉ changes old new ↔ (r ∈ old ↔ r ∈ new) :=
  not_xor _ _

theorem isHull_changedSpan (old new : List Region) : IsHull (changes old new) (changedSpan old new) := by
  have hset : changes old new = ∅ ∪ {r | r ∈ old.filter (!new.contains ·) ++ new.filter (!old.contains ·)} := by
    ext r
    simp [changes, xor_def]
  rw [hset]
  exact isHull_empty.foldl _

theorem changedSpan_comm (old new : List Region) : changedSpan old new = changedSpan new old := by
  have hback := isHull_changedSpan new old
  rw [← changes_comm] at hback
  exact (isHull_changedSpan old new).unique hback

/-- What a delta says of the two sets of regions that it stands between. -/
structure IsDelta (old new : List Region) (delta : Option Span) : Prop where
  none_iff : delta = none ↔ ∀ r, r ∈ old ↔ r ∈ new
  start_least : ∀ span, delta = some span → IsLeast (startLine '' changes old new) span.start
  stop_greatest : ∀ span, delta = some span → IsGreatest (endLine '' changes old new) span.stop
  kept_outside : ∀ span, delta = some span → ∀ r : Region,
    ¬(span.start ≤ r.startLine ∧ r.endLine ≤ span.stop) → (r ∈ old ↔ r ∈ new)

theorem isDelta_changedSpan (old new : List Region) : IsDelta old new (changedSpan old new) := by
  have h := isHull_changedSpan old new
  refine ⟨?_, h.start_least, h.stop_greatest, ?_⟩
  · rw [h.none_iff, Set.eq_empty_iff_forall_notMem]
    exact forall_congr' fun r => not_mem_changes
  · intro span hspan r hout
    apply not_mem_changes.1
    intro hr
    apply hout
    exact ⟨(h.start_least span hspan).2 ⟨r, hr, rfl⟩, (h.stop_greatest span hspan).2 ⟨r, hr, rfl⟩⟩

end Region

namespace FoldTracker
open Region

variable {tracker : FoldTracker} {sets : List RegionSet}

/-- The set that a call publishes unless a limit or the state of the tracker prevents it. -/
def offered (tracker : FoldTracker) : Call → Option RegionSet
  | .checkSize _ => none
  | .recompute source _ => some (tracker.regionSet source)
  | .install set _ => some set
  | .reset source _ _ => some (tracker.regionSet source)
  | .takeNotices => none

/-- The sets published so far, after one more call. -/
def publishedAfter (tracker : FoldTracker) (sets : List RegionSet) (call : Call) : List RegionSet :=
  if (tracker.after call).isEnabled then
    (tracker.offered call).toList ++ if call.isReset then [] else sets
  else []

/-- The sets that a run publishes, the newest first. A reset, and a limit that is exceeded,
leave none of the earlier ones. -/
def history (tracker : FoldTracker) (sets : List RegionSet) : List Call → List RegionSet
  | [] => sets
  | call :: calls => (tracker.after call).history (tracker.publishedAfter sets call) calls

theorem history_concat (tracker : FoldTracker) (sets : List RegionSet) (calls : List Call) (call : Call) :
    tracker.history sets (calls ++ [call]) =
      (breaker.run tracker calls).publishedAfter (tracker.history sets calls) call := by
  induction calls generalizing tracker sets with
  | nil => rfl
  | cons first calls ih => exact ih (tracker.after first) (tracker.publishedAfter sets first)

/-- The regions last published. -/
def latest (sets : List RegionSet) : List Region :=
  (sets.headD {}).regions

def deltaOf : List RegionSet → Option Span
  | [] => none
  | set :: older => changedSpan (latest older) set.regions

/-- The tracker shows the newest of some sets, and its delta is from the one before. -/
structure Shows (sets : List RegionSet) (tracker : FoldTracker) : Prop where
  published : tracker.published = sets.headD {}
  delta : tracker.delta = deltaOf sets
  off : tracker.isEnabled = false → sets = []

theorem shows_disable (tracker : FoldTracker) (status : FoldStatus) (notice : Notice) :
    Shows [] (tracker.disable status notice) :=
  ⟨rfl, rfl, fun _ => rfl⟩

theorem shows_cleared (tracker : FoldTracker) (on : Bool) : Shows [] (tracker.cleared on) :=
  ⟨rfl, rfl, fun _ => rfl⟩

theorem install_cases (tracker : FoldTracker) (set : RegionSet) (elapsed : Duration) :
    (tracker.isEnabled = false ∧ tracker.install set elapsed = tracker) ∨
      tracker.install set elapsed = tracker.disable .tooSlow (.foldingTooSlow elapsed) ∨
      tracker.isEnabled = true ∧ tracker.install set elapsed =
        { tracker with published := set, delta := changedSpan tracker.published.regions set.regions } := by
  unfold install
  split_ifs with hon hslow
  · exact .inr (.inl rfl)
  · exact .inr (.inr ⟨hon, rfl⟩)
  · exact .inl ⟨eq_false_of_ne_true hon, rfl⟩

theorem Shows.of_off (h : Shows sets tracker) (hoff : tracker.isEnabled = false) : Shows [] tracker :=
  h.off hoff ▸ h

/-- A tracker that is off has published nothing that could be lost. -/
theorem Shows.eq_ite (h : Shows sets tracker) : (if tracker.isEnabled then sets else []) = sets := by
  cases hon : tracker.isEnabled with
  | false => exact (h.off hon).symm
  | true => rfl

theorem Shows.checkSize (h : Shows sets tracker) (source : Source) :
    Shows (if (tracker.checkSize source).2.isEnabled then sets else []) (tracker.checkSize source).2 := by
  rcases checkSize_cases tracker source with ⟨_, _, hc⟩ | ⟨_, hc⟩ | ⟨_, _, hc⟩
  · rw [hc, h.eq_ite]
    exact h
  · rw [hc, h.eq_ite]
    exact h
  · rw [hc]
    exact shows_disable tracker _ _

theorem Shows.install (h : Shows sets tracker) (set : RegionSet) (elapsed : Duration) :
    Shows (if (tracker.install set elapsed).isEnabled then set :: sets else []) (tracker.install set elapsed) := by
  rcases tracker.install_cases set elapsed with ⟨hoff, hin⟩ | hin | ⟨hon, hin⟩
  · rw [hin, hoff]
    exact h.of_off hoff
  · rw [hin]
    exact shows_disable tracker _ _
  · have hstill : (tracker.install set elapsed).isEnabled = true := by
      rw [hin]
      exact hon
    rw [if_pos hstill, hin]
    refine ⟨rfl, ?_, fun hoff => absurd (hon.symm.trans hoff) (by decide)⟩
    rw [deltaOf, latest, ← h.published]

theorem Shows.recompute (h : Shows sets tracker) (source : Source) (elapsed : Duration) :
    Shows (if (tracker.recompute source elapsed).isEnabled then tracker.regionSet source :: sets else [])
      (tracker.recompute source elapsed) := by
  unfold FoldTracker.recompute
  rcases checkSize_cases tracker source with ⟨_, _, hc⟩ | ⟨hoff, hc⟩ | ⟨_, _, hc⟩
  · rw [hc]
    exact h.install _ elapsed
  · rw [hc]
    dsimp only
    rw [hoff]
    exact h.of_off hoff
  · rw [hc]
    exact shows_disable tracker _ _

theorem Shows.after (h : Shows sets tracker) (call : Call) :
    Shows (tracker.publishedAfter sets call) (tracker.after call) := by
  cases call with
  | checkSize source => exact h.checkSize source
  | recompute source elapsed => exact h.recompute source elapsed
  | install set elapsed => exact h.install set elapsed
  | reset source on elapsed => exact (shows_cleared tracker on).recompute source elapsed
  | takeNotices =>
    have hsame : tracker.publishedAfter sets .takeNotices = sets := h.eq_ite
    rw [hsame]
    exact ⟨h.published, h.delta, h.off⟩

theorem Shows.history (h : Shows sets tracker) (calls : List Call) :
    Shows (tracker.history sets calls) (breaker.run tracker calls) := by
  induction calls generalizing tracker sets with
  | nil => exact h
  | cons call calls ih => exact ih (h.after call)

/-- Over every run: what a call publishes is shown, with the exact span of what changed since the
set published before it. Two lists of regions have the same span in either order. -/
theorem delta_spans_changes (t : Tokenizer) (rules : FoldRules) (limits : SpeedLimits) (on : Bool) :
    let start : FoldTracker := { tokenizer := t, rules := rules, limits := limits, status := .initial on }
    (∀ calls call set,
      let next := breaker.run start (calls ++ [call])
      let earlier := if call.isReset then [] else start.history [] calls
      (breaker.run start calls).offered call = some set → next.isEnabled = true →
        next.published = set ∧ IsDelta (latest earlier) set.regions next.delta) ∧
    (∀ calls, (breaker.run start calls).published = (start.history [] calls).headD {}) ∧
    ∀ old new, changedSpan old new = changedSpan new old := by
  intro start
  have hstart : Shows [] start := ⟨rfl, rfl, fun _ => rfl⟩
  refine ⟨?_, fun calls => (hstart.history calls).published, changedSpan_comm⟩
  intro calls call set next earlier hset hon
  have hnext : next = (breaker.run start calls).after call := breaker.run_concat start calls call
  have hhistory : start.history [] (calls ++ [call]) = set :: earlier := by
    rw [history_concat, publishedAfter, ← hnext, if_pos hon, hset]
    rfl
  have hshows : Shows (set :: earlier) next := hhistory ▸ hstart.history (calls ++ [call])
  refine ⟨hshows.published, ?_⟩
  rw [hshows.delta]
  exact isDelta_changedSpan (latest earlier) set.regions

/-- A source that is too large, then a reset: the regions of the reset are the older ones of the
next delta. -/
theorem delta_spans_changes_after_reset :
    let large : Source := ⟨List.replicate 5 "; a".toList⟩
    let short : Source := ⟨List.replicate 2 "; a".toList⟩
    let moved : Source := ⟨"x".toList :: List.replicate 3 "; a".toList⟩
    let start : FoldTracker :=
      { tokenizer := ⟨.empty, {}⟩, rules := { maxLines := 4 }, limits := {}, status := .initial true }
    let calls : List Call := [.recompute large ⟨1⟩, .reset short true ⟨1⟩]
    let next := breaker.run start (calls ++ [.recompute moved ⟨1⟩])
    (breaker.run start [.recompute large ⟨1⟩]).status = .tooLarge ∧
      latest (start.history [] calls) = [⟨1, 0, 0, 0, 1⟩] ∧ next.published.regions = [⟨1, 1, 0, 0, 3⟩] ∧
      next.delta = some ⟨0, 3⟩ ∧
      IsDelta (latest (start.history [] calls)) next.published.regions next.delta := by
  intro large short moved start calls next
  obtain ⟨hdelta, _⟩ := delta_spans_changes ⟨.empty, {}⟩ { maxLines := 4 } {} true
  obtain ⟨hset, hspan⟩ := hdelta calls (.recompute moved ⟨1⟩) _ rfl (by decide)
  refine ⟨by decide, by decide, by decide, by decide, ?_⟩
  rw [hset]
  exact hspan

end FoldTracker
end AsmOutline
