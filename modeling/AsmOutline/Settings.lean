import AsmOutline.File
import AsmOutline.Fold.Rules
import AsmOutline.Json.Writer
import AsmOutline.Notice

/-! # Settings

Settings come as JSON under one root key. A key that is missing or of the wrong type keeps
its value; in a settings file an unknown dialect is refused.
-/
namespace AsmOutline
open Text

structure FoldSettings where
  enabled : Bool := true
  maxLines : Nat := 100000
  beginTag : String := "#region"
  endTag : String := "#endregion"
  collapsed : Bool := false
  deriving DecidableEq, Repr

structure Settings where
  dialect : Dialect := .masm
  remarkMarkers : String := "#;"
  debounceMillis : Nat := 1000
  slowThreshold : Seconds := .ofFloat 10.0
  slowWarning : Seconds := .ofFloat 0.2
  labelsEnabled : Bool := true
  folding : FoldSettings := {}
  deriving DecidableEq, Repr

namespace Settings

def rootKey : String := "asmlens"

def minDebounceMillis : Nat := 50

def nonEmpty? (value : Option Json) : Option String :=
  (value.bind Json.str?).filter (· ≠ "")

def positiveSeconds? (value : Option Json) : Option Seconds :=
  ((value.bind Json.float?).map Seconds.ofFloat).filter fun s => s.isFinite && s.isPositive

def dialect? (value : Option Json) : Option Dialect :=
  (value.bind Json.str?).bind fun text => Dialect.ofName? text.toList

def updateFolding (folding : FoldSettings) (part : Option Json) : FoldSettings :=
  let get (key : String) := part.bind (·.field? key)
  { enabled := ((get "enabled").bind Json.bool?).getD folding.enabled
    maxLines := ((get "maxLines").bind Json.natural?).getD folding.maxLines
    beginTag := (nonEmpty? (get "beginTag")).getD folding.beginTag
    endTag := (nonEmpty? (get "endTag")).getD folding.endTag
    collapsed := ((get "defaultCollapsed").bind Json.bool?).getD folding.collapsed }

/-- Applies the section under the root key. -/
def update (settings : Settings) (value : Json) : Settings :=
  let root := value.field? rootKey
  let get (key : String) := root.bind (·.field? key)
  { dialect := (dialect? (get "dialect")).getD settings.dialect
    remarkMarkers := (nonEmpty? (get "remarkMarkers")).getD settings.remarkMarkers
    debounceMillis :=
      (((get "debounceMs").bind Json.natural?).map (max minDebounceMillis)).getD settings.debounceMillis
    slowThreshold := (positiveSeconds? (get "slowThresholdSec")).getD settings.slowThreshold
    slowWarning := (positiveSeconds? (get "slowWarningSec")).getD settings.slowWarning
    labelsEnabled :=
      (((get "labels").bind (·.field? "enabled")).bind Json.bool?).getD settings.labelsEnabled
    folding := updateFolding settings.folding (get "folding") }

/-- Settings that are not there change nothing. -/
def updateFrom (settings : Settings) : Option Json → Settings
  | none => settings
  | some value => settings.update value

inductive Fault
  | unreadable (path : String) (cause : FileError)
  | notJson (path : String)
  | notObject (path : String)
  | unknownDialect (path : String) (value : Json)

def Fault.message : Fault → String
  | unreadable path cause => s!"failed to read '{path}': {cause.message}"
  | notJson path => s!"{path}: invalid JSON"
  | notObject path => s!"{path}: expected a JSON object"
  | unknownDialect path value =>
    s!"{path}: unknown dialect {value.render}; expected \"masm\" or \"nasm\""

/-- The section of a file may stand under the root key or on its own. -/
def wrap (value : Json) : Json :=
  if (value.field? rootKey).isSome then value else .obj [(rootKey, value)]

def ofJson (path : String) (value : Json) : Except Fault Settings :=
  if value.isObject then
    match ((wrap value).field? rootKey).bind (·.field? "dialect") with
    | none => .ok (update {} (wrap value))
    | some dialect =>
      if (dialect? (some dialect)).isSome then .ok (update {} (wrap value))
      else .error (.unknownDialect path dialect)
  else .error (.notObject path)

def load (read : FileReader) (readJson : JsonReader) (path : String) : Except Fault Settings :=
  match read path with
  | .error cause => .error (.unreadable path cause)
  | .ok text =>
    match readJson text with
    | none => .error (.notJson path)
    | some value => ofJson path value

def conventions (settings : Settings) : Conventions :=
  .ofMarkers settings.remarkMarkers.toList

def speedLimits (settings : Settings) : SpeedLimits :=
  ⟨.ofSeconds settings.slowThreshold, .ofSeconds settings.slowWarning⟩

def foldRules (settings : Settings) : FoldRules :=
  { beginTag := settings.folding.beginTag.toList
    endTag := settings.folding.endTag.toList
    dialect := settings.dialect
    maxLines := settings.folding.maxLines
    collapsed := settings.folding.collapsed }

def debounce (settings : Settings) : Duration :=
  .ofMillis settings.debounceMillis

end Settings
end AsmOutline
