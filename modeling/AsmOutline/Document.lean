import AsmOutline.Fold.Tracker
import AsmOutline.Label.Tracker
import AsmOutline.Settings
import AsmOutline.Worker

/-! # The analysis of one document

A document keeps its label index and its fold regions current. In immediate mode every
edit is followed through at once. In background mode a rebuild of the labels and every
computation of the folds is left to a worker; `poll` takes in what is ready, and `flush`
does what is still pending. The threads of the workers go on during a call too, so each call
is given the steps that they take between its parts.
-/
namespace AsmOutline
open Text

inductive DocumentMode
  | immediate
  | background
  deriving DecidableEq, Repr

/-- What the clocks show for the label work and the fold work of one operation. -/
structure Timing where
  labels : Duration := ⟨1⟩
  folding : Duration := ⟨1⟩

/-- A step of the thread at place `i` of one of the workers, with what its clock shows. -/
inductive BackgroundStep
  | labels (i : Nat) (elapsed : Duration)
  | folding (i : Nat) (elapsed : Duration)

/-- What the threads do between the parts of a call, from one part to the next. -/
abbrev Gaps := Nat → List BackgroundStep

/-- The threads do nothing during the call. -/
def Gaps.empty : Gaps := fun _ => []

structure Document where
  settings : Settings
  mode : DocumentMode
  source : Source
  labels : LabelTracker
  folding : FoldTracker
  labelWorker : Worker LabelIndex
  foldWorker : Worker RegionSet
  notices : List Notice

namespace Document

/-- Both analyses are computed when a document is opened, in either mode. -/
def openWith (table : KeywordTable) (settings : Settings) (source : Source) (mode : DocumentMode)
    (timing : Timing) : Document :=
  let t : Tokenizer := ⟨table, settings.conventions⟩
  let limits := settings.speedLimits
  let labels : LabelTracker := { tokenizer := t, limits := limits }
  let folding : FoldTracker :=
    { tokenizer := t, rules := settings.foldRules, limits := limits,
      status := .initial settings.folding.enabled }
  { settings := settings
    mode := mode
    source := source
    labels := if settings.labelsEnabled then labels.rebuild source timing.labels else labels
    folding := folding.recompute source timing.folding
    labelWorker := { delay := settings.debounce }
    foldWorker := { delay := settings.debounce }
    notices := (table.failure.map Notice.keywordsUnavailable).toList }

def backgroundStep (doc : Document) : BackgroundStep → Document
  | .labels i elapsed => { doc with labelWorker := doc.labelWorker.advance i elapsed }
  | .folding i elapsed => { doc with foldWorker := doc.foldWorker.advance i elapsed }

def background (doc : Document) (steps : List BackgroundStep) : Document :=
  steps.foldl backgroundStep doc

def tokenizer (doc : Document) : Tokenizer :=
  doc.labels.tokenizer

def submitLabels (doc : Document) : Document :=
  { doc with labelWorker := doc.labelWorker.submit (LabelIndex.buildJob doc.tokenizer doc.source) }

/-- While a rebuild is pending the index belongs to older lines, so nothing is done in place. -/
def editLabels (doc : Document) (edit : Edit) (timing : Timing) : Document :=
  if doc.settings.labelsEnabled && doc.labels.enabled then
    if doc.mode = .background ∧ (edit.growth ≠ 0 ∨ doc.labelWorker.isPending) then doc.submitLabels
    else { doc with labels := doc.labels.onEdit edit timing.labels }
  else doc

def editFolding (doc : Document) (timing : Timing) : Document :=
  match doc.mode with
  | .immediate => { doc with folding := doc.folding.recompute doc.source timing.folding }
  | .background =>
    match doc.folding.checkSize doc.source with
    | (true, folding) =>
      { doc with
        folding := folding
        foldWorker := doc.foldWorker.submit (RegionSet.job folding.rules folding.tokenizer doc.source) }
    | (false, folding) => { doc with folding := folding, foldWorker := doc.foldWorker.cancel }

def applyEdit (doc : Document) (edit : Edit) (timing : Timing) (gaps : Gaps) : Document :=
  ((editLabels { doc with source := edit.source } edit timing).background (gaps 0)).editFolding timing

def pollLabels (doc : Document) : Bool × Document :=
  match doc.labelWorker.drain with
  | (some result, worker) =>
    (true, { doc with labelWorker := worker, labels := doc.labels.install result.value result.elapsed })
  | (none, worker) => (false, { doc with labelWorker := worker })

def pollFolding (doc : Document) : Bool × Document :=
  match doc.foldWorker.drain with
  | (some result, worker) =>
    (true, { doc with foldWorker := worker, folding := doc.folding.install result.value result.elapsed })
  | (none, worker) => (false, { doc with foldWorker := worker })

/-- Takes in finished results, and tells whether there were any. -/
def poll (doc : Document) (gaps : Gaps) : Bool × Document :=
  let labels := doc.pollLabels
  let folding := (labels.2.background (gaps 0)).pollFolding
  (labels.1 || folding.1, folding.2)

def flushLabels (doc : Document) (timing : Timing) : Document :=
  if doc.labelWorker.isPending then
    { doc with
      labelWorker := doc.labelWorker.cancel
      labels := doc.labels.rebuild doc.source timing.labels }
  else doc

def flushFolding (doc : Document) (timing : Timing) : Document :=
  if doc.foldWorker.isPending then
    { doc with
      foldWorker := doc.foldWorker.cancel
      folding := doc.folding.recompute doc.source timing.folding }
  else doc

def flush (doc : Document) (timing : Timing) (gaps : Gaps) : Document :=
  let polled := (doc.poll gaps).2.background (gaps 1)
  ((polled.flushLabels timing).background (gaps 2)).flushFolding timing

def isSettled (doc : Document) : Bool :=
  !doc.labelWorker.isPending && !doc.foldWorker.isPending

def cancelLabels (doc : Document) : Document :=
  { doc with labelWorker := doc.labelWorker.cancel }

def cancelFolding (doc : Document) : Document :=
  { doc with foldWorker := doc.foldWorker.cancel }

def resetLabels (doc : Document) (timing : Timing) : Document :=
  { doc with
    labels := if doc.settings.labelsEnabled then doc.labels.reset doc.source timing.labels else doc.labels }

def resetFolding (doc : Document) (timing : Timing) : Document :=
  { doc with folding := doc.folding.reset doc.source doc.settings.folding.enabled timing.folding }

/-- Switches both analyses on again, as the settings say, and computes them. -/
def reset (doc : Document) (timing : Timing) (gaps : Gaps) : Document :=
  let cancelled := (doc.cancelLabels.background (gaps 0)).cancelFolding.background (gaps 1)
  ((cancelled.resetLabels timing).background (gaps 2)).resetFolding timing

/-- Time in which all background work can come to its end. -/
def quietTime (doc : Document) (timing : Timing) : Document :=
  { doc with
    labelWorker := doc.labelWorker.quietTime timing.labels
    foldWorker := doc.foldWorker.quietTime timing.folding }

/-- The tokens of the lines of a range, as far as the source goes. -/
def tokensOfLines (doc : Document) (range : Span) : List (Nat × List Token) :=
  let lines := doc.source.lines.zipIdx.filter fun entry => range.start ≤ entry.2 && entry.2 < range.stop
  lines.map fun entry => (entry.2, doc.tokenizer.tokens entry.1)

def tokensOfLine (doc : Document) (line : Nat) (range : Span) : List Token :=
  if line < doc.source.lineCount then doc.tokenizer.tokensIn (doc.source.line line) range else []

def verdict (doc : Document) (line : Nat) (token : Token) : Verdict :=
  if doc.settings.labelsEnabled && line < doc.source.lineCount then
    doc.labels.verdict line token (doc.source.line line)
  else .ok

def diagnostics (doc : Document) : List Diagnostic :=
  if doc.settings.labelsEnabled then Diagnostic.dedup (doc.labels.diagnostics doc.source.lineCount) else []

def descriptions (doc : Document) : List (Text × Text) :=
  doc.labels.index.descriptions doc.source

/-- The notices since the last call: the document's own, then of labels, then of folds. -/
def takeNotices (doc : Document) : List Notice × Document :=
  let labels := doc.labels.takeNotices
  let folding := doc.folding.takeNotices
  (doc.notices ++ labels.1 ++ folding.1,
    { doc with notices := [], labels := labels.2, folding := folding.2 })

end Document
end AsmOutline
