import AsmOutline.Label.Index
import AsmOutline.Notice

/-! # Keeping a label index current

The tracker publishes one index. A computation that takes longer than the limit switches
it off with a notice, and only a reset switches it on again.
-/
namespace AsmOutline
open Text

structure LabelTracker where
  tokenizer : Tokenizer
  limits : SpeedLimits
  index : LabelIndex := {}
  enabled : Bool := true
  notices : List Notice := []

namespace LabelTracker

def checkElapsed (tracker : LabelTracker) (elapsed : Duration) : LabelTracker :=
  if elapsed.exceeds tracker.limits.threshold then
    { tracker with
      enabled := false
      index := {}
      notices := tracker.notices ++ [.labelsTooSlow elapsed] }
  else tracker

/-- Publishes an index that took `elapsed` to build. -/
def install (tracker : LabelTracker) (index : LabelIndex) (elapsed : Duration) : LabelTracker :=
  if tracker.enabled then checkElapsed { tracker with index := index } elapsed else tracker

def rebuild (tracker : LabelTracker) (source : Source) (elapsed : Duration) : LabelTracker :=
  tracker.install (.build tracker.tokenizer source) elapsed

/-- Lines are scanned in place as long as their number stays the same. -/
def onEdit (tracker : LabelTracker) (edit : Edit) (elapsed : Duration) : LabelTracker :=
  if edit.growth ≠ 0 ∨ tracker.index.lineCount ≠ edit.source.lineCount then
    tracker.rebuild edit.source elapsed
  else
    tracker.install (tracker.index.updateLines tracker.tokenizer edit.source edit.changed) elapsed

def reset (tracker : LabelTracker) (source : Source) (elapsed : Duration) : LabelTracker :=
  rebuild { tracker with enabled := true, index := {} } source elapsed

def takeNotices (tracker : LabelTracker) : List Notice × LabelTracker :=
  (tracker.notices, { tracker with notices := [] })

def verdict (tracker : LabelTracker) (line : Nat) (token : Token) (text : Text) : Verdict :=
  if tracker.enabled then tracker.index.tokenVerdict line token text else .ok

def diagnostics (tracker : LabelTracker) (limit : Nat) : List Diagnostic :=
  if tracker.enabled then tracker.index.diagnostics limit else []

end LabelTracker
end AsmOutline
