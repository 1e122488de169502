import AsmOutline.Document
import AsmOutline.Proofs.LabelEdits
import AsmOutline.Proofs.WorkerAnswers

/-! # The two sides of a document

The labels and the folds of a document each have a tracker and a worker of their own. A
side is in step with a source when the tracker holds what the source gives, or the worker
waits for it and can receive nothing else. Every operation on a side keeps it in step, as
long as no computation is too slow.
-/
namespace AsmOutline

namespace LabelTracker

/-- A tracker that was never switched off. -/
def holding (t : Tokenizer) (limits : SpeedLimits) (index : LabelIndex) : LabelTracker :=
  { tokenizer := t, limits := limits, index := index }

variable {t : Tokenizer} {limits : SpeedLimits} {index : LabelIndex} {elapsed : Duration}

theorem install_holding (hq : elapsed.exceeds limits.threshold = false) (next : LabelIndex) :
    (holding t limits index).install next elapsed = holding t limits next :=
  install_of_quick rfl hq next

theorem rebuild_holding (hq : elapsed.exceeds limits.threshold = false) (source : Source) :
    (holding t limits index).rebuild source elapsed = holding t limits (.build t source) :=
  install_holding hq _

theorem reset_holding (hq : elapsed.exceeds limits.threshold = false) (source : Source) :
    (holding t limits index).reset source elapsed = holding t limits (.build t source) :=
  rebuild_holding hq source

theorem onEdit_holding {edit : Edit} {old : Source} (hh : edit.Honest old)
    (hq : elapsed.exceeds limits.threshold = false) :
    (holding t limits (.build t old)).onEdit edit elapsed = holding t limits (.build t edit.source) := by
  have htracks : Tracks (holding t limits (.build t old)) old := ⟨rfl, rfl⟩
  obtain ⟨next, hnext⟩ := onEdit_of_quick edit htracks.enabled hq
  have hindex := (htracks.onEdit hh hq).index_eq
  rw [hnext] at hindex ⊢
  exact congrArg (holding t limits) hindex

end LabelTracker

open LabelTracker (holding)

/-- What the label index of a source should be; without label analysis it stays empty. -/
def LabelIndex.wanted (t : Tokenizer) (on : Bool) (source : Source) : LabelIndex :=
  if on then .build t source else {}

structure LabelSide (t : Tokenizer) (limits : SpeedLimits) (on : Bool) (source : Source)
    (tracker : LabelTracker) (w : Worker LabelIndex) : Prop where
  holds : tracker = holding t limits tracker.index
  serves : w.Serves limits.threshold (LabelIndex.build t source)
  settled : w.pending = none → tracker.index = .wanted t on source
  unused : on = false → w.pending = none

namespace LabelSide

variable {t : Tokenizer} {limits : SpeedLimits} {on : Bool} {source old : Source}
  {tracker : LabelTracker} {w : Worker LabelIndex} {elapsed : Duration}

theorem tokenizer_eq (h : LabelSide t limits on source tracker w) : tracker.tokenizer = t := by
  rw [h.holds]
  rfl

theorem enabled (h : LabelSide t limits on source tracker w) : tracker.enabled = true := by
  rw [h.holds]
  rfl

theorem of_idle {index : LabelIndex} {v : LabelIndex} (hw : w.Serves limits.threshold v)
    (hp : w.pending = none) (hi : index = .wanted t on source) :
    LabelSide t limits on source (holding t limits index) w where
  holds := rfl
  serves := hw.of_idle hp
  settled _ := hi
  unused _ := hp

theorem opened (delay : Duration) (on : Bool) (source : Source)
    (hq : elapsed.exceeds limits.threshold = false) :
    LabelSide t limits on source
      (if on then (holding t limits {}).rebuild source elapsed else holding t limits {})
      { delay := delay } := by
  have hnew := Worker.serves_new delay limits.threshold (LabelIndex.build t source)
  cases on with
  | true =>
    rw [if_pos rfl, LabelTracker.rebuild_holding hq]
    exact of_idle hnew rfl rfl
  | false => exact of_idle hnew rfl rfl

theorem editInPlace {edit : Edit} (h : LabelSide t limits true old tracker w) (hp : w.pending = none)
    (hh : edit.Honest old) (hq : elapsed.exceeds limits.threshold = false) :
    LabelSide t limits true edit.source (tracker.onEdit edit elapsed) w := by
  have hi : tracker.index = .build t old := h.settled hp
  rw [h.holds, hi, LabelTracker.onEdit_holding hh hq]
  exact of_idle h.serves hp rfl

theorem submit (h : LabelSide t limits true old tracker w)
    (hl : (w.submit (LabelIndex.buildJob t source)).latest < Worker.maxGeneration) :
    LabelSide t limits true source tracker (w.submit (LabelIndex.buildJob t source)) where
  holds := h.holds
  serves := h.serves.submit rfl hl
  settled hp := by cases hp
  unused ho := by cases ho

theorem ignore (h : LabelSide t limits false old tracker w) : LabelSide t limits false source tracker w where
  holds := h.holds
  serves := h.serves.of_idle (h.unused rfl)
  settled := h.settled
  unused := h.unused

theorem advanceAll {steps : List (Nat × Duration)} (h : LabelSide t limits on source tracker w)
    (hq : ∀ step ∈ steps, step.2.exceeds limits.threshold = false) :
    LabelSide t limits on source tracker (w.advanceAll steps) where
  holds := h.holds
  serves := h.serves.advanceAll hq
  settled hp := h.settled (by simpa using hp)
  unused ho := by simpa using h.unused ho

theorem receive {d : Delivery LabelIndex} {next : Worker LabelIndex}
    (h : LabelSide t limits on source tracker w) (hd : w.drain = (some d, next)) :
    LabelSide t limits on source (tracker.install d.value d.elapsed) next := by
  obtain ⟨hv, hq, hp, hs⟩ := h.serves.drain_some hd
  rw [h.holds, LabelTracker.install_holding hq]
  apply of_idle hs hp
  cases on with
  | true => exact hv
  | false =>
    -- without label analysis nothing was ever submitted
    rw [Worker.drain_of_idle (h.unused rfl)] at hd
    cases hd

theorem receiveNothing {next : Worker LabelIndex} (h : LabelSide t limits on source tracker w)
    (hd : w.drain = (none, next)) : LabelSide t limits on source tracker next := by
  obtain ⟨hp, hs⟩ := h.serves.drain_none hd
  exact ⟨h.holds, hs, fun hn => h.settled (hp ▸ hn), fun ho => hp.trans (h.unused ho)⟩

theorem flush (h : LabelSide t limits on source tracker w) (hp : w.isPending = true)
    (hq : elapsed.exceeds limits.threshold = false) :
    LabelSide t limits on source (tracker.rebuild source elapsed) w.cancel := by
  cases on with
  | true =>
    rw [h.holds, LabelTracker.rebuild_holding hq]
    exact of_idle h.serves.cancel rfl rfl
  | false =>
    rw [Worker.isPending, h.unused rfl] at hp
    cases hp

theorem reset (h : LabelSide t limits on source tracker w)
    (hq : elapsed.exceeds limits.threshold = false) :
    LabelSide t limits on source (if on then tracker.reset source elapsed else tracker) w.cancel := by
  cases on with
  | true =>
    rw [if_pos rfl, h.holds, LabelTracker.reset_holding hq]
    exact of_idle h.serves.cancel rfl rfl
  | false =>
    rw [if_neg (by decide), h.holds]
    exact of_idle h.serves.cancel rfl (h.settled (h.unused rfl))

end LabelSide

namespace FoldTracker

/-- A tracker without what it published: its status and its notices. -/
def bare (tracker : FoldTracker) : FoldTracker :=
  { tracker with published := {}, delta := none }

variable {tracker : FoldTracker} {source : Source} {elapsed : Duration}

/-- What the size of a source does: nothing, or it switches folding off. -/
theorem checkSize_cases (tracker : FoldTracker) (source : Source) :
    (tracker.isEnabled = true ∧ source.lineCount ≤ tracker.rules.maxLines ∧
        tracker.checkSize source = (true, tracker)) ∨
      (tracker.isEnabled = false ∧ tracker.checkSize source = (false, tracker)) ∨
      (tracker.isEnabled = true ∧ tracker.rules.maxLines < source.lineCount ∧
        tracker.checkSize source = (false,
          tracker.disable .tooLarge (.foldingTooLarge source.lineCount tracker.rules.maxLines))) := by
  unfold checkSize
  cases he : tracker.isEnabled with
  | false => exact .inr (.inl ⟨rfl, rfl⟩)
  | true =>
    by_cases hc : tracker.rules.maxLines < source.lineCount
    · exact .inr (.inr ⟨rfl, hc, by simp [hc]⟩)
    · exact .inl ⟨rfl, Nat.le_of_not_lt hc, by simp [hc]⟩

theorem checkSize_bare (tracker : FoldTracker) (source : Source) :
    (tracker.checkSize source).2.bare = (tracker.bare.checkSize source).2.bare := by
  have he : tracker.bare.isEnabled = tracker.isEnabled := rfl
  have hr : tracker.bare.rules = tracker.rules := rfl
  unfold checkSize
  rw [he, hr]
  split_ifs <;> rfl

theorem checkSize_limits (tracker : FoldTracker) (source : Source) :
    (tracker.checkSize source).2.limits = tracker.limits := by
  rcases checkSize_cases tracker source with ⟨_, _, hc⟩ | ⟨_, hc⟩ | ⟨_, _, hc⟩ <;> rw [hc]
  rfl

theorem install_of_quick (he : tracker.isEnabled = true)
    (hq : elapsed.exceeds tracker.limits.threshold = false) (set : RegionSet) :
    tracker.install set elapsed =
      { tracker with
        published := set
        delta := Region.changedSpan tracker.published.regions set.regions } := by
  simp [install, he, hq]

theorem install_bare (hq : elapsed.exceeds tracker.limits.threshold = false) (set : RegionSet) :
    (tracker.install set elapsed).bare = tracker.bare := by
  cases he : tracker.isEnabled with
  | true =>
    rw [install_of_quick he hq]
    rfl
  | false => simp [install, he]

theorem install_limits (tracker : FoldTracker) (set : RegionSet) (elapsed : Duration) :
    (tracker.install set elapsed).limits = tracker.limits := by
  unfold install
  split_ifs <;> rfl

theorem recompute_bare (hq : elapsed.exceeds tracker.limits.threshold = false) :
    (tracker.recompute source elapsed).bare = (tracker.checkSize source).2.bare := by
  unfold recompute
  rcases checkSize_cases tracker source with ⟨_, _, hc⟩ | ⟨_, hc⟩ | ⟨_, _, hc⟩
  · rw [hc]
    exact install_bare hq _
  · rw [hc]
  · rw [hc]

theorem recompute_limits (hq : elapsed.exceeds tracker.limits.threshold = false) :
    (tracker.recompute source elapsed).limits = tracker.limits := by
  have hb : (tracker.recompute source elapsed).bare = (tracker.checkSize source).2.bare := recompute_bare hq
  have hl : (tracker.recompute source elapsed).bare.limits = (tracker.checkSize source).2.bare.limits := by
    rw [hb]
  exact hl.trans (checkSize_limits tracker source)

/-- A reset starts from here. -/
def cleared (tracker : FoldTracker) (on : Bool) : FoldTracker :=
  { tracker.bare with status := .initial on }

theorem reset_eq (tracker : FoldTracker) (source : Source) (on : Bool) (elapsed : Duration) :
    tracker.reset source on elapsed = (tracker.cleared on).recompute source elapsed := rfl

theorem reset_bare (on : Bool) (hq : elapsed.exceeds tracker.limits.threshold = false) :
    (tracker.reset source on elapsed).bare = ((tracker.cleared on).checkSize source).2.bare := by
  have hcleared : elapsed.exceeds (tracker.cleared on).limits.threshold = false := hq
  rw [reset_eq, recompute_bare hcleared]

theorem reset_limits (on : Bool) (hq : elapsed.exceeds tracker.limits.threshold = false) :
    (tracker.reset source on elapsed).limits = tracker.limits := by
  have hcleared : elapsed.exceeds (tracker.cleared on).limits.threshold = false := hq
  rw [reset_eq, recompute_limits hcleared]
  rfl

end FoldTracker

structure FoldSide (source : Source) (tracker : FoldTracker) (w : Worker RegionSet) : Prop where
  serves : w.Serves tracker.limits.threshold (tracker.regionSet source)
  settled : w.pending = none → tracker.isEnabled = true → tracker.published = tracker.regionSet source
  off : tracker.isEnabled = false → tracker.published = {} ∧ w.pending = none
  fits : tracker.isEnabled = true → source.lineCount ≤ tracker.rules.maxLines

namespace FoldSide

variable {source old : Source} {tracker : FoldTracker} {w : Worker RegionSet} {elapsed : Duration}

theorem of_enabled (he : tracker.isEnabled = true) (hf : source.lineCount ≤ tracker.rules.maxLines)
    (hw : w.Serves tracker.limits.threshold (tracker.regionSet source))
    (hs : w.pending = none → tracker.published = tracker.regionSet source) : FoldSide source tracker w where
  serves := hw
  settled hp _ := hs hp
  off hn := by cases he.symm.trans hn
  fits _ := hf

theorem of_off {v : RegionSet} (he : tracker.isEnabled = false) (hw : w.Serves tracker.limits.threshold v)
    (hp : w.pending = none) (hs : tracker.published = {}) : FoldSide source tracker w where
  serves := hw.of_idle hp
  settled _ hn := by cases he.symm.trans hn
  off _ := ⟨hs, hp⟩
  fits hn := by cases he.symm.trans hn

/-- What a settled side publishes is decided by the rest of its tracker. -/
theorem published_eq (h : FoldSide source tracker w) (hp : w.pending = none) :
    tracker.published = if tracker.bare.isEnabled then tracker.bare.regionSet source else {} := by
  have hsame : tracker.bare.isEnabled = tracker.isEnabled := rfl
  rw [hsame]
  cases he : tracker.isEnabled with
  | true => exact h.settled hp he
  | false => exact (h.off he).1

/-- A computation on the spot, with nothing under way. -/
theorem recompute {v : RegionSet} (hw : w.Serves tracker.limits.threshold v) (hp : w.pending = none)
    (hoff : tracker.isEnabled = false → tracker.published = {})
    (hq : elapsed.exceeds tracker.limits.threshold = false) :
    FoldSide source (tracker.recompute source elapsed) w := by
  unfold FoldTracker.recompute
  rcases FoldTracker.checkSize_cases tracker source with ⟨he, hf, hc⟩ | ⟨he, hc⟩ | ⟨_, _, hc⟩
  · rw [hc]
    dsimp only
    rw [FoldTracker.install_of_quick he hq]
    exact of_enabled he hf (hw.of_idle hp) fun _ => rfl
  · rw [hc]
    exact of_off he hw hp (hoff he)
  · rw [hc]
    exact of_off rfl hw hp rfl

theorem submit (h : FoldSide old tracker w) (hc : (tracker.checkSize source).1 = true)
    (hl : (w.submit (RegionSet.job tracker.rules tracker.tokenizer source)).latest < Worker.maxGeneration) :
    FoldSide source tracker (w.submit (RegionSet.job tracker.rules tracker.tokenizer source)) := by
  rcases FoldTracker.checkSize_cases tracker source with ⟨he, hf, _⟩ | ⟨_, hn⟩ | ⟨_, _, hn⟩
  · exact of_enabled he hf (h.serves.submit rfl hl) fun hp => by cases hp
  · rw [hn] at hc
    cases hc
  · rw [hn] at hc
    cases hc

theorem refuse (h : FoldSide old tracker w) (hc : (tracker.checkSize source).1 = false) :
    FoldSide source (tracker.checkSize source).2 w.cancel := by
  rcases FoldTracker.checkSize_cases tracker source with ⟨_, _, hn⟩ | ⟨he, hn⟩ | ⟨_, _, hn⟩
  · rw [hn] at hc
    cases hc
  · rw [hn]
    exact of_off he h.serves.cancel rfl (h.off he).1
  · rw [hn]
    exact of_off rfl h.serves.cancel rfl rfl

theorem advanceAll {steps : List (Nat × Duration)} (h : FoldSide source tracker w)
    (hq : ∀ step ∈ steps, step.2.exceeds tracker.limits.threshold = false) :
    FoldSide source tracker (w.advanceAll steps) where
  serves := h.serves.advanceAll hq
  settled hp := h.settled (by simpa using hp)
  off he := by simpa using h.off he
  fits := h.fits

theorem receive {d : Delivery RegionSet} {next : Worker RegionSet} (h : FoldSide source tracker w)
    (hd : w.drain = (some d, next)) :
    FoldSide source (tracker.install d.value d.elapsed) next ∧
      (tracker.install d.value d.elapsed).bare = tracker.bare := by
  obtain ⟨hv, hq, hp, hs⟩ := h.serves.drain_some hd
  refine ⟨?_, FoldTracker.install_bare hq _⟩
  cases he : tracker.isEnabled with
  | true =>
    rw [FoldTracker.install_of_quick he hq]
    exact of_enabled he (h.fits he) hs fun _ => hv
  | false =>
    -- nothing is waited for while folding is off
    rw [Worker.drain_of_idle (h.off he).2] at hd
    cases hd

theorem receiveNothing {next : Worker RegionSet} (h : FoldSide source tracker w)
    (hd : w.drain = (none, next)) : FoldSide source tracker next := by
  obtain ⟨hp, hs⟩ := h.serves.drain_none hd
  exact ⟨hs, fun hn => h.settled (hp ▸ hn), fun he => ⟨(h.off he).1, hp.trans (h.off he).2⟩, h.fits⟩

/-- The size was checked when the work was left to the worker, so it is in order still. -/
theorem checkSize_of_pending (h : FoldSide source tracker w) (hp : w.isPending = true) :
    tracker.checkSize source = (true, tracker) := by
  obtain ⟨_, _, hc⟩ | ⟨he, _⟩ | ⟨he, hl, _⟩ := FoldTracker.checkSize_cases tracker source
  · exact hc
  · rw [Worker.isPending, (h.off he).2] at hp
    cases hp
  · exact absurd (h.fits he) (Nat.not_le_of_lt hl)

theorem flush (h : FoldSide source tracker w) (hp : w.isPending = true)
    (hq : elapsed.exceeds tracker.limits.threshold = false) :
    FoldSide source (tracker.recompute source elapsed) w.cancel ∧
      (tracker.recompute source elapsed).bare = tracker.bare := by
  constructor
  · exact recompute h.serves.cancel rfl (fun he => (h.off he).1) hq
  · rw [FoldTracker.recompute_bare hq, h.checkSize_of_pending hp]

theorem reset {on : Bool} (h : FoldSide old tracker w)
    (hq : elapsed.exceeds tracker.limits.threshold = false) :
    FoldSide source (tracker.reset source on elapsed) w.cancel := by
  have hserves : w.cancel.Serves (tracker.cleared on).limits.threshold (tracker.regionSet old) :=
    h.serves.cancel
  rw [FoldTracker.reset_eq]
  exact recompute hserves rfl (fun _ => rfl) hq

end FoldSide
end AsmOutline
