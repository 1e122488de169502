import AsmOutline.Diagnostic
import AsmOutline.Label.Record
import AsmOutline.Sorting
import AsmOutline.Source
import AsmOutline.Worker
import Std.Data.ExtTreeMap
import Std.Data.ExtTreeSet

/-! # The label index of a source

For each name the index knows the lines that define it and the lines that use it, and
for each line with labels their sites. Lines can be scanned anew in place; when that
changes the parent of the labels below, the whole source is scanned.
-/
namespace AsmOutline
open Text

abbrev LineSets := Std.ExtTreeMap Text (Std.ExtTreeSet Nat)

namespace LineSets

def lines (sets : LineSets) (name : Text) : Std.ExtTreeSet Nat :=
  sets[name]?.getD ∅

def find? (sets : LineSets) (name : Text) : Option (List Nat) :=
  sets[name]?.map (·.toList)

def add (line : Nat) (sets : LineSets) (name : Text) : LineSets :=
  sets.insert name ((lines sets name).insert line)

/-- A name without lines is not kept. -/
def remove (line : Nat) (sets : LineSets) (name : Text) : LineSets :=
  let left := (lines sets name).erase line
  if left.isEmpty then sets.erase name else sets.insert name left

end LineSets

structure LabelIndex where
  defs : LineSets := ∅
  uses : LineSets := ∅
  records : Std.ExtTreeMap Nat LabelRecord := ∅
  lineCount : Nat := 0
  deriving DecidableEq

namespace LabelIndex

def names (sites : List LabelSite) : List Text :=
  sites.map LabelSite.name

/-- A record without labels is not stored. -/
def insertLine (index : LabelIndex) (line : Nat) (record : LabelRecord) : LabelIndex :=
  if record.isEmpty then index
  else
    { index with
      defs := (names record.defs).foldl (LineSets.add line) index.defs
      uses := (names record.uses).foldl (LineSets.add line) index.uses
      records := index.records.insert line record }

def removeLine (index : LabelIndex) (line : Nat) : LabelIndex :=
  match index.records[line]? with
  | none => index
  | some record =>
    { index with
      defs := (names record.defs).foldl (LineSets.remove line) index.defs
      uses := (names record.uses).foldl (LineSets.remove line) index.uses
      records := index.records.erase line }

def insertFrom (t : Tokenizer) : Option Text → Nat → List Text → LabelIndex → LabelIndex
  | _, _, [], index => index
  | parent, line, text :: rest, index =>
    let record := LabelRecord.scan t parent text
    insertFrom t (record.opens.or parent) (line + 1) rest (index.insertLine line record)

def build (t : Tokenizer) (source : Source) : LabelIndex :=
  insertFrom t none 0 source.lines { lineCount := source.lineCount }

def buildJob (t : Tokenizer) (source : Source) : Job LabelIndex :=
  .overLines source.lineCount (build t source)

/-- The parent of local labels at the start of a line. -/
def parentBefore (index : LabelIndex) (line : Nat) : Option Text :=
  (index.records.toList.filter (·.1 < line)).reverse.findSome? (·.2.opens)

/-- Scans `count` lines anew, from `line` on. -/
def updateFrom (t : Tokenizer) (source : Source) : Nat → Nat → LabelIndex → LabelIndex
  | 0, _, index => index
  | count + 1, line, index =>
    let record := LabelRecord.scan t (index.parentBefore line) (source.line line)
    let old := index.records[line]?.getD {}
    if old.opens ≠ record.opens then build t source
    else updateFrom t source count (line + 1) ((index.removeLine line).insertLine line record)

/-- Scans the lines of a range anew in a source with as many lines as before. -/
def updateLines (index : LabelIndex) (t : Tokenizer) (source : Source) (range : Span) : LabelIndex :=
  let stop := min range.stop index.lineCount
  updateFrom t source (stop - range.start) range.start index

def hasLabel (index : LabelIndex) (name : Text) : Bool :=
  index.defs.contains name

def hasClash (index : LabelIndex) (name : Text) : Bool :=
  1 < (LineSets.lines index.defs name).size

def verdict (index : LabelIndex) (kind : Token.Kind) (name : Text) : Verdict :=
  match kind with
  | .labelUse => if index.hasLabel name then .ok else .undefined
  | .labelDef => if index.hasClash name then .clash else .ok
  | _ => .ok

/-- The verdict on a token of a line, under the key that its site was indexed by. -/
def tokenVerdict (index : LabelIndex) (line : Nat) (token : Token) (text : Text) : Verdict :=
  let site := index.records[line]?.bind (·.siteAt? token.start)
  index.verdict token.kind ((site.map LabelSite.name).getD (token.text text))

def lineLists (sets : LineSets) : List (Text × List Nat) :=
  sets.toList.map fun entry => (entry.1, entry.2.toList)

def clashes (index : LabelIndex) : List (Text × List Nat) :=
  (lineLists index.defs).filter fun entry => index.hasClash entry.1

def undefinedNames (index : LabelIndex) : List (Text × List Nat) :=
  (lineLists index.uses).filter fun entry => !index.hasLabel entry.1

def relatedLines (index : LabelIndex) : List Nat :=
  index.records.keys

def describeLine (source : Source) (line : Nat) : Text :=
  s!"LINE {line + 1}: ".toList ++ trim (source.line line)

/-- For each name its defining lines, counted from one. -/
def descriptions (index : LabelIndex) (source : Source) : List (Text × Text) :=
  (lineLists index.defs).map fun entry =>
    (entry.1, ['\n'].intercalate (entry.2.map (describeLine source)))

def siteDiagnostic (index : LabelIndex) (line : Nat) (kind : Token.Kind) (site : LabelSite) : Diagnostic :=
  ⟨line, site.name, index.verdict kind site.name, site.start, site.stop⟩

def recordDiagnostics (index : LabelIndex) (line : Nat) (record : LabelRecord) : List Diagnostic :=
  (record.defs.map (index.siteDiagnostic line .labelDef) ++
    record.uses.map (index.siteDiagnostic line .labelUse)).filter (·.verdict ≠ .ok)

def inReadingOrder (a b : Diagnostic) : Bool :=
  a.line < b.line || a.line == b.line && a.start ≤ b.start

/-- What is wrong on the lines before `limit`. -/
def diagnostics (index : LabelIndex) (limit : Nat) : List Diagnostic :=
  sortStable inReadingOrder
    ((index.records.toList.filter (·.1 < limit)).flatMap fun entry =>
      index.recordDiagnostics entry.1 entry.2)

end LabelIndex
end AsmOutline
