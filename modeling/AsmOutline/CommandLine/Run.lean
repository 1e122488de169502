import AsmOutline.CommandLine.Options
import AsmOutline.CommandLine.Report
import AsmOutline.Json.Reader
import AsmOutline.Keyword.Reader

/-! # Running a command line

The settings are read first, then the source. A keyword table that cannot be read only
limits the analysis.
-/
namespace AsmOutline

inductive RunFault
  | unreadable (path : String) (cause : FileError)
  | settings (fault : Settings.Fault)
  | unwritable (cause : String)

namespace RunFault

def cause : RunFault → String
  | unreadable _ cause => cause.message
  | settings fault => fault.message
  | unwritable cause => cause

def message : RunFault → String
  | unreadable path cause => s!"failed to read '{path}': {cause.message}"
  | settings fault => s!"invalid configuration: {fault.message}"
  | unwritable cause => s!"failed to write output: {cause}"

end RunFault

namespace Options

/-- The files that a run may read. -/
def paths (options : Options) : List String :=
  options.settings.toList ++ [options.file] ++ options.keywords.toList

/-- Without a choice of sections, labels and folds are reported. -/
def wanted (options : Options) (chosen : Bool) (byDefault : Bool) : Bool :=
  if options.tokens || options.labels || options.folds then chosen else byDefault

def loadSettings (options : Options) (read : FileReader) : Except Settings.Fault Settings := do
  let settings ←
    match options.settings with
    | some path => Settings.load read Json.parse? path
    | none => pure {}
  return { settings with dialect := options.dialect.getD settings.dialect }

def report (options : Options) (doc : Document) : Report :=
  let section? {α : Type} (shown : Bool) (items : α) : Option α := if shown then some items else none
  { notices := doc.takeNotices.1
    tokens := section? (options.wanted options.tokens false) (doc.tokensOfLines ⟨0, doc.source.lineCount⟩)
    diagnostics := section? (options.wanted options.labels true) doc.diagnostics
    regions := section? (options.wanted options.folds true) doc.folding.published.descriptors }

def render (options : Options) (report : Report) (source : Source) : String :=
  match options.format with
  | .text => report.toText source
  | .json => (report.toJson source).render ++ "\n"

/-- The output of a run. -/
def run (options : Options) (read : FileReader) (timing : Timing) : Except RunFault String :=
  match options.loadSettings read with
  | .error fault => .error (.settings fault)
  | .ok settings =>
    match read options.file with
    | .error cause => .error (.unreadable options.file cause)
    | .ok text =>
      let source := Source.ofText text
      let table := KeywordTable.loadOrDegraded read Json.parse? options.keywords
      let doc := Document.openWith table settings source .immediate timing
      .ok (options.render (options.report doc) source)

end Options
end AsmOutline
