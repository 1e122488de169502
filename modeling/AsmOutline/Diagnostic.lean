import AsmOutline.Json
import AsmOutline.Text.Bytes

/-! # Label diagnostics -/
namespace AsmOutline

inductive Verdict
  | ok
  | undefined
  | clash
  deriving DecidableEq, Repr

namespace Verdict

def name : Verdict → String
  | ok => "ok"
  | undefined => "undefined"
  | clash => "clash"

def severity : Verdict → Nat
  | clash => 1
  | undefined => 2
  | ok => 4

end Verdict

/-- What is wrong with the label at a span of a line. -/
structure Diagnostic where
  line : Nat
  name : Text
  verdict : Verdict
  start : Nat
  stop : Nat
  deriving DecidableEq, Repr

namespace Diagnostic

def message (d : Diagnostic) : String :=
  let name := String.ofList d.name
  match d.verdict with
  | .ok => s!"label '{name}'"
  | .undefined => s!"undefined label '{name}'"
  | .clash => s!"label '{name}' is defined more than once"

/-- Of equal diagnostics only the first is kept. -/
def dedup (ds : List Diagnostic) : List Diagnostic :=
  go [] ds
where
  go (seen : List Diagnostic) : List Diagnostic → List Diagnostic
    | [] => []
    | d :: rest => if d ∈ seen then go seen rest else d :: go (d :: seen) rest

def position (line column : Nat) : Json :=
  .ofFields [("line", .ofNat line), ("character", .ofNat column)]

/-- A diagnostic covers at least one column. -/
def toJson (d : Diagnostic) : Json :=
  .ofFields [
    ("range", .ofFields [
      ("start", position d.line d.start),
      ("end", position d.line (max d.stop (d.start + 1)))]),
    ("severity", .ofNat d.verdict.severity),
    ("code", .str d.verdict.name),
    ("source", .str "asmlens"),
    ("label", .str (String.ofList d.name)),
    ("message", .str d.message)]

def listJson (ds : List Diagnostic) : List Json :=
  (ds.filter (·.verdict ≠ .ok)).map toJson

end Diagnostic
end AsmOutline
