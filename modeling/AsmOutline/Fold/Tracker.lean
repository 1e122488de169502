import AsmOutline.Fold.Descriptor
import AsmOutline.Notice

/-! # Keeping fold regions current

The tracker publishes one set of regions and what changed since the set before. A source
with too many lines, or a computation that takes too long, switches it off with a notice,
and only a reset switches it on again.
-/
namespace AsmOutline

inductive FoldStatus
  | enabled
  | off
  | tooLarge
  | tooSlow
  deriving DecidableEq, Repr

namespace FoldStatus

def name : FoldStatus → String
  | enabled => "enabled"
  | off => "off"
  | tooLarge => "too-large"
  | tooSlow => "too-slow"

def initial (enabled : Bool) : FoldStatus :=
  if enabled then .enabled else .off

end FoldStatus

structure FoldTracker where
  tokenizer : Tokenizer
  rules : FoldRules
  limits : SpeedLimits
  published : RegionSet := {}
  status : FoldStatus := .enabled
  delta : Option Span := none
  notices : List Notice := []

namespace FoldTracker

def isEnabled (tracker : FoldTracker) : Bool :=
  tracker.status == .enabled

def disable (tracker : FoldTracker) (status : FoldStatus) (notice : Notice) : FoldTracker :=
  { tracker with
    status := status
    published := {}
    delta := none
    notices := tracker.notices ++ [notice] }

/-- Whether a source may be computed; one that is too large switches folding off. -/
def checkSize (tracker : FoldTracker) (source : Source) : Bool × FoldTracker :=
  if tracker.isEnabled then
    if tracker.rules.maxLines < source.lineCount then
      (false, tracker.disable .tooLarge (.foldingTooLarge source.lineCount tracker.rules.maxLines))
    else (true, tracker)
  else (false, tracker)

/-- Publishes a set that took `elapsed` to compute. -/
def install (tracker : FoldTracker) (set : RegionSet) (elapsed : Duration) : FoldTracker :=
  if tracker.isEnabled then
    if elapsed.exceeds tracker.limits.threshold then
      tracker.disable .tooSlow (.foldingTooSlow elapsed)
    else
      { tracker with
        published := set
        delta := Region.changedSpan tracker.published.regions set.regions }
  else tracker

def regionSet (tracker : FoldTracker) (source : Source) : RegionSet :=
  .ofSource tracker.rules tracker.tokenizer source

def recompute (tracker : FoldTracker) (source : Source) (elapsed : Duration) : FoldTracker :=
  match tracker.checkSize source with
  | (true, tracker) => tracker.install (tracker.regionSet source) elapsed
  | (false, tracker) => tracker

def reset (tracker : FoldTracker) (source : Source) (enabled : Bool) (elapsed : Duration) : FoldTracker :=
  recompute { tracker with status := .initial enabled, published := {}, delta := none } source elapsed

def takeNotices (tracker : FoldTracker) : List Notice × FoldTracker :=
  (tracker.notices, { tracker with notices := [] })

end FoldTracker
end AsmOutline
