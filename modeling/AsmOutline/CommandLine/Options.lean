import AsmOutline.Dialect

/-! # Command line options

Arguments are read from left to right. An option keeps waiting for its value, and the
file for its check, until the next argument is recognised or the line ends; an argument
that is not known is reported before that.
-/
namespace AsmOutline

inductive OutputFormat
  | text
  | json
  deriving DecidableEq, Repr

def OutputFormat.name : OutputFormat → String
  | text => "text"
  | json => "json"

structure Options where
  file : String
  dialect : Option Dialect := none
  keywords : Option String := none
  settings : Option String := none
  format : OutputFormat := .text
  tokens : Bool := false
  labels : Bool := false
  folds : Bool := false
  verbose : Bool := false
  deriving DecidableEq, Repr

namespace Options

/-- Why the arguments do not lead to a run. -/
inductive Stop
  | invalidValue
  | unknownArgument
  | repeated
  | needlessValue
  | missingFile
  | help
  | version
  deriving DecidableEq, Repr

inductive Flag
  | tokens
  | labels
  | folds
  | verbose
  deriving DecidableEq, Repr

inductive Setting
  | dialect
  | keywords
  | config
  | format
  deriving DecidableEq, Repr

/-- What an option name stands for. -/
inductive Meaning
  | flag (flag : Flag)
  | setting (setting : Setting)
  | stop (stop : Stop)
  deriving DecidableEq, Repr

def longNames : List (String × Meaning) := [
  ("dialect", .setting .dialect), ("keywords", .setting .keywords), ("config", .setting .config),
  ("format", .setting .format), ("tokens", .flag .tokens), ("labels", .flag .labels),
  ("folds", .flag .folds), ("verbose", .flag .verbose), ("help", .stop .help),
  ("version", .stop .version)]

def shortNames : List (Char × Meaning) :=
  [('v', .flag .verbose), ('h', .stop .help), ('V', .stop .version)]

/-- What was read last and is not checked yet. -/
inductive Pending
  | nothing
  | setting (setting : Setting) (value : Option String)
  | file (path : String)
  deriving DecidableEq, Repr

structure Draft where
  file : Option String := none
  dialect : Option Dialect := none
  keywords : Option String := none
  config : Option String := none
  format : Option OutputFormat := none
  flags : List Flag := []
  pending : Pending := .nothing
  onlyFiles : Bool := false
  deriving DecidableEq, Repr

namespace Draft

def isGiven (draft : Draft) : Setting → Bool
  | .dialect => draft.dialect.isSome
  | .keywords => draft.keywords.isSome
  | .config => draft.config.isSome
  | .format => draft.format.isSome

def path? (value : String) : Except Stop String :=
  if value = "" then .error .invalidValue else .ok value

/-- Names of values are matched exactly. -/
def choice? {α : Type} (name : α → String) (choices : List α) (value : String) : Except Stop α :=
  match choices.find? fun choice => name choice == value with
  | some choice => .ok choice
  | none => .error .invalidValue

def set (draft : Draft) (setting : Setting) (value : String) : Except Stop Draft :=
  if draft.isGiven setting then .error .repeated
  else
    match setting with
    | .dialect => do
      let dialect ← choice? Dialect.name [.masm, .nasm] value
      return { draft with dialect := some dialect }
    | .format => do
      let format ← choice? OutputFormat.name [.text, .json] value
      return { draft with format := some format }
    | .keywords => do
      let path ← path? value
      return { draft with keywords := some path }
    | .config => do
      let path ← path? value
      return { draft with config := some path }

/-- Checks what is pending. -/
def settle (draft : Draft) : Except Stop Draft :=
  match draft.pending with
  | .nothing => .ok draft
  | .setting _ none => .error .invalidValue
  | .setting setting (some value) => { draft with pending := .nothing }.set setting value
  | .file path => do
    let path ← path? path
    return { draft with pending := .nothing, file := some path }

def raise (draft : Draft) (flag : Flag) : Except Stop Draft :=
  if flag ∈ draft.flags then .error .repeated else .ok { draft with flags := flag :: draft.flags }

/-- A name without a value attached. -/
def bare (draft : Draft) : Meaning → Except Stop Draft
  | .flag flag => do (← draft.settle).raise flag
  | .setting setting => do
    let draft ← draft.settle
    return { draft with pending := .setting setting none }
  | .stop stop => do
    let _ ← draft.settle
    throw stop

def attached (draft : Draft) (value : String) : Meaning → Except Stop Draft
  | .setting setting => do (← draft.settle).set setting value
  | _ => .error .needlessValue

def long (draft : Draft) (text : Text) : Except Stop Draft :=
  let name := text.takeWhile (· ≠ '=')
  match longNames.lookup (String.ofList name), text.drop name.length with
  | none, _ => .error .unknownArgument
  | some meaning, [] => draft.bare meaning
  | some meaning, _ :: value => draft.attached (String.ofList value) meaning

def short (draft : Draft) : Text → Except Stop Draft
  | [] => .ok draft
  | c :: cs =>
    match shortNames.lookup c with
    | none => .error .unknownArgument
    | some meaning => do (← draft.bare meaning).short cs

def hasFile (draft : Draft) : Bool :=
  draft.file.isSome ||
    match draft.pending with
    | .file _ => true
    | _ => false

def addFile (draft : Draft) (path : String) : Except Stop Draft :=
  if draft.hasFile then .error .unknownArgument
  else do
    let draft ← draft.settle
    return { draft with pending := .file path }

/-- An argument that is not an option: the value waited for, or the file. -/
def plain (draft : Draft) (argument : String) : Except Stop Draft :=
  match draft.pending with
  | .setting setting none => .ok { draft with pending := .setting setting (some argument) }
  | _ => draft.addFile argument

def read (draft : Draft) (argument : String) : Except Stop Draft :=
  if draft.onlyFiles then draft.addFile argument
  else
    match argument.toList with
    | ['-', '-'] => .ok { draft with onlyFiles := true }
    | '-' :: '-' :: name => draft.long name
    | '-' :: c :: cs => draft.short (c :: cs)
    | _ => draft.plain argument

def finish (draft : Draft) : Except Stop Options := do
  let draft ← draft.settle
  match draft.file with
  | none => throw .missingFile
  | some file =>
    return {
      file := file
      dialect := draft.dialect
      keywords := draft.keywords
      settings := draft.config
      format := draft.format.getD .text
      tokens := .tokens ∈ draft.flags
      labels := .labels ∈ draft.flags
      folds := .folds ∈ draft.flags
      verbose := .verbose ∈ draft.flags }

end Draft

def ofArguments (arguments : List String) : Except Stop Options := do
  (← arguments.foldlM Draft.read {}).finish

end Options
end AsmOutline
