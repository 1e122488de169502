import AsmOutline.Document
import AsmOutline.Text.Quoted

/-! # Reports

A report holds the sections that were asked for. Lines are counted from one in text and
from zero in JSON.
-/
namespace AsmOutline
open Text

structure Report where
  notices : List Notice
  tokens : Option (List (Nat × List Token)) := none
  diagnostics : Option (List Diagnostic) := none
  regions : Option (List RegionDescriptor) := none

namespace Report

def version : String := "0.1.0"

def noticeLine (notice : Notice) : String :=
  s!"notice: {notice.kind.name} ({notice.component.name}): {notice.message}\n"

def tokenText (line : Text) (token : Token) : String :=
  token.kind.name ++ ":" ++ String.ofList (quoted (token.text line))

def tokenLine (source : Source) (entry : Nat × List Token) : String :=
  let texts := entry.2.map (tokenText (source.line entry.1))
  s!"  {entry.1 + 1}: " ++ " ".intercalate texts ++ "\n"

def diagnosticLine (d : Diagnostic) : String :=
  s!"  {d.line + 1}:{d.start + 1}: {d.verdict.name}: {d.message}\n"

def regionLine (d : RegionDescriptor) : String :=
  let indent := String.ofList (List.replicate (2 * d.region.level) ' ')
  indent ++ s!"{d.region.startLine + 1}-{d.region.endLine + 1}: " ++ String.ofList d.description ++ "\n"

/-- Lines without tokens are left out. -/
def tokenSection (source : Source) (entries : List (Nat × List Token)) : String :=
  "tokens:\n" ++ String.join ((entries.filter (!·.2.isEmpty)).map (tokenLine source))

def diagnosticSection (ds : List Diagnostic) : String :=
  s!"labels: {ds.length} problem(s)\n" ++ String.join (ds.map diagnosticLine)

def regionSection (ds : List RegionDescriptor) : String :=
  s!"regions: {ds.length}\n" ++ String.join (ds.map regionLine)

def toText (report : Report) (source : Source) : String :=
  String.join (report.notices.map noticeLine) ++
    (report.tokens.map (tokenSection source)).getD "" ++
    (report.diagnostics.map diagnosticSection).getD "" ++
    (report.regions.map regionSection).getD ""

def tokenJson (line : Text) (token : Token) : Json :=
  .ofFields [("start", .ofNat token.start), ("end", .ofNat token.stop), ("kind", .str token.kind.name),
    ("text", .str (String.ofList (token.text line)))]

def tokenLineJson (source : Source) (entry : Nat × List Token) : Json :=
  .ofFields [("line", .ofNat entry.1),
    ("tokens", .arr (entry.2.map (tokenJson (source.line entry.1))))]

def regionJson (d : RegionDescriptor) : Json :=
  .ofFields [("level", .ofNat d.region.level), ("startLine", .ofNat d.region.startLine),
    ("endLine", .ofNat d.region.endLine), ("description", .str (String.ofList d.description)),
    ("collapsed", .bool d.collapsed)]

def sectionJson {α : Type} (key : String) (items : Option (List α)) (toJson : List α → List Json) :
    List (String × Json) :=
  match items with
  | none => []
  | some items => [(key, .arr (toJson items))]

def toJson (report : Report) (source : Source) : Json :=
  .ofFields (
    [("version", .str version), ("notices", .arr (report.notices.map Notice.toJson))] ++
    sectionJson "tokens" report.tokens (·.map (tokenLineJson source)) ++
    sectionJson "diagnostics" report.diagnostics Diagnostic.listJson ++
    sectionJson "regions" report.regions (·.map regionJson))

end Report
end AsmOutline
