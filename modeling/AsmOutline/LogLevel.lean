import AsmOutline.Text.Blank
import AsmOutline.Text.Letters

/-! # Log levels -/
namespace AsmOutline
open Text

inductive LogLevel
  | off
  | error
  | warn
  | info
  | debug
  | trace
  deriving DecidableEq, Repr

namespace LogLevel

def name : LogLevel → String
  | off => "off"
  | error => "error"
  | warn => "warn"
  | info => "info"
  | debug => "debug"
  | trace => "trace"

def rank : LogLevel → Nat
  | off => 0
  | error => 1
  | warn => 2
  | info => 3
  | debug => 4
  | trace => 5

/-- A level is written as its name or its rank; any other word asks for everything. -/
def ofDirective (text : Text) : LogLevel :=
  let matching := [off, error, warn, info, debug].find? fun level =>
    level.name.toList == lower text || (toString level.rank).toList == text
  matching.getD trace

/-- The level asked for, `info` when none is; a verbose run logs at least `debug`. -/
def choose (verbose : Bool) (directive : Option Text) : LogLevel :=
  let base :=
    match directive.map trim with
    | none | some [] => info
    | some text => ofDirective text
  if verbose ∧ base.rank < debug.rank then debug else base

end LogLevel
end AsmOutline
