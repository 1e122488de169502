import AsmOutline.Fold.Rules
import AsmOutline.Sorting
import AsmOutline.Source

/-! # Fold regions

Open regions stand on a stack. A closing line ends the top one; an opening line of the
same level ends it too and starts the next. Two or more remark lines in a row are a region
of their own. What is still open at the end gives no region.
-/
namespace AsmOutline

structure Region where
  level : Nat
  startLine : Nat
  startOffset : Nat
  previewOffset : Nat
  endLine : Nat
  deriving DecidableEq, Repr

structure OpenRegion where
  level : Nat
  startLine : Nat
  startOffset : Nat
  previewOffset : Nat
  deriving DecidableEq, Repr

def OpenRegion.endAt (region : OpenRegion) (line : Nat) : Region :=
  ⟨region.level, region.startLine, region.startOffset, region.previewOffset, line⟩

structure RemarkRun where
  startLine : Nat
  endLine : Nat
  offset : Nat
  deriving DecidableEq, Repr

/-- The open regions, innermost first, and the remark lines just read. -/
structure FoldState where
  stack : List OpenRegion := []
  run : Option RemarkRun := none
  deriving DecidableEq, Repr

namespace FoldState

def level (state : FoldState) : Nat :=
  match state.stack with
  | [] => 0
  | top :: _ => top.level

/-- The region that a run of remarks gives when it ends here. -/
def runRegions (state : FoldState) : List Region :=
  match state.run with
  | none => []
  | some run =>
    if run.startLine < run.endLine then
      [⟨state.level + 1, run.startLine, run.offset, run.offset, run.endLine⟩]
    else []

def endRun (state : FoldState) : FoldState :=
  { state with run := none }

/-- Adds a remark line to the run, or starts one. -/
def remark (state : FoldState) (line offset : Nat) : FoldState :=
  match state.run with
  | some run => { state with run := some { run with endLine := line } }
  | none => { state with run := some ⟨line, line, offset⟩ }

def openRegion (state : FoldState) (line : Nat) (hint : Option Nat) (offset previewOffset : Nat) :
    FoldState × List Region :=
  let level := hint.getD (state.level + 1)
  let opened : OpenRegion := ⟨level, line, offset, previewOffset⟩
  match state.stack with
  | [] => ({ state with stack := [opened] }, [])
  | top :: rest =>
    if top.level = level then ({ state with stack := opened :: rest }, [top.endAt line])
    else ({ state with stack := opened :: top :: rest }, [])

/-- A level that is not the one of the innermost region closes nothing. -/
def close (state : FoldState) (line : Nat) (hint : Option Nat) : FoldState × List Region :=
  match state.stack with
  | [] => (state, [])
  | top :: rest =>
    if hint.getD top.level = top.level then ({ state with stack := rest }, [top.endAt line])
    else (state, [])

/-- The state after a line, and the regions that end there. -/
def step (state : FoldState) (line : Nat) : LineRole → FoldState × List Region
  | .remark offset => (state.remark line offset, [])
  | .plain => (state.endRun, state.runRegions)
  | .opens hint offset previewOffset =>
    let next := state.endRun.openRegion line hint offset previewOffset
    (next.1, state.runRegions ++ next.2)
  | .closes hint =>
    let next := state.endRun.close line hint
    (next.1, state.runRegions ++ next.2)

/-- The regions of the lines from `line` on, in the order in which they end. -/
def regionsFrom (state : FoldState) (line : Nat) : List LineRole → List Region
  | [] => state.runRegions
  | role :: rest =>
    let next := state.step line role
    next.2 ++ next.1.regionsFrom (line + 1) rest

end FoldState

namespace Region

/-- By first line, then level, then last line. -/
def before (a b : Region) : Bool :=
  a.startLine < b.startLine || a.startLine == b.startLine &&
    (a.level < b.level || a.level == b.level && a.endLine ≤ b.endLine)

def ofRoles (roles : List LineRole) : List Region :=
  sortStable before (FoldState.regionsFrom {} 0 roles)

def ofSource (rules : FoldRules) (t : Tokenizer) (source : Source) : List Region :=
  ofRoles (source.lines.map (rules.role t))

/-- What lies between the first and the last line of changed regions. -/
def hull (span : Option Span) (region : Region) : Option Span :=
  match span with
  | none => some ⟨region.startLine, region.endLine⟩
  | some span => some ⟨min span.start region.startLine, max span.stop region.endLine⟩

/-- The lines from the first to the last of all regions in only one of two lists. -/
def changedSpan (old new : List Region) : Option Span :=
  (old.filter (!new.contains ·) ++ new.filter (!old.contains ·)).foldl hull none

end Region
end AsmOutline
