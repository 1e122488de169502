import AsmOutline.File
import AsmOutline.Json
import AsmOutline.Keyword.Builtin

/-! # Reading keyword tables

A table is a JSON array of entries, or an object that holds one under `keywords`. The
first entry that is not valid refuses the whole table.
-/
namespace AsmOutline
open Text

inductive EntryFault
  | notObject
  | noName
  | noKind (name : String)
  | unknownKind (name kind : String)
  | unknownDialect (name dialect : String)
  deriving DecidableEq, Repr

def EntryFault.message : EntryFault → String
  | notObject => "entry is not an object"
  | noName => "missing 'name'"
  | noKind name => s!"'{name}' has no 'kind'"
  | unknownKind name kind => s!"'{name}' has unknown kind '{kind}'"
  | unknownDialect name dialect => s!"'{name}' has unknown assembler '{dialect}'"

inductive TableFault
  | unreadable (path : String) (cause : FileError)
  | notJson
  | noList
  | notList
  | badEntry (index : Nat) (fault : EntryFault)
  deriving DecidableEq, Repr

/-- A table without a list of entries is at fault in its entry 0. -/
def TableFault.message : TableFault → String
  | unreadable path cause => s!"failed to read keyword table '{path}': {cause.message}"
  | notJson => "keyword table is not valid JSON"
  | noList => "keyword table entry 0: missing 'keywords' array"
  | notList => "keyword table entry 0: expected an object or array"
  | badEntry index fault => s!"keyword table entry {index}: {fault.message}"

namespace Keyword

def name? (item : Json) : Option Text :=
  ((item.field? "name").bind Json.str?).bind fun text =>
    let name := trim text.toList
    if name.isEmpty then none else some name

def dialectOf (name : Text) (item : Json) : Except EntryFault (Option Dialect) :=
  match (item.field? "assembler").bind Json.str? with
  | none => .ok none
  | some text =>
    match Dialect.ofName? text.toList with
    | some dialect => .ok (some dialect)
    | none => .error (.unknownDialect (String.ofList name) text)

def kindOf (name : Text) (item : Json) : Except EntryFault Kind :=
  match (item.field? "kind").bind Json.str? with
  | none => .error (.noKind (String.ofList name))
  | some text =>
    match Kind.ofName? text.toList with
    | some kind => .ok kind
    | none => .error (.unknownKind (String.ofList name) text)

/-- An instruction set that is not known is left out. -/
def ofJson (item : Json) : Except EntryFault Keyword :=
  if item.isObject then
    match name? item with
    | none => .error .noName
    | some name => do
      let kind ← kindOf name item
      let dialect ← dialectOf name item
      return {
        name := upper name
        kind := kind
        instructionSet :=
          ((item.field? "arch").bind Json.str?).bind fun text => InstructionSet.ofName? text.toList
        dialect := dialect
        description := ((item.field? "description").bind Json.str?).getD "" }
  else .error .notObject

/-- The entries of a list whose first one has this index. -/
def ofItems (index : Nat) : List Json → Except TableFault (List Keyword)
  | [] => .ok []
  | item :: items =>
    match ofJson item with
    | .error fault => .error (.badEntry index fault)
    | .ok entry => (ofItems (index + 1) items).map (entry :: ·)

end Keyword

namespace KeywordTable

def entryList (root : Json) : Except TableFault (List Json) :=
  match root with
  | .arr items => .ok items
  | .obj _ =>
    match root.field? "keywords" with
    | some (.arr items) => .ok items
    | _ => .error .noList
  | _ => .error .notList

def ofJson (root : Json) : Except TableFault KeywordTable :=
  match entryList root with
  | .error fault => .error fault
  | .ok items => (Keyword.ofItems 0 items).map ofEntries

def parse (readJson : JsonReader) (text : Text) : Except TableFault KeywordTable :=
  match readJson text with
  | some root => ofJson root
  | none => .error .notJson

def load (read : FileReader) (readJson : JsonReader) (path : String) : Except TableFault KeywordTable :=
  match read path with
  | .ok text => parse readJson text
  | .error cause => .error (.unreadable path cause)

/-- Without a path the built-in table is used; a table that cannot be loaded is empty. -/
def loadOrDegraded (read : FileReader) (readJson : JsonReader) (path : Option String) : KeywordTable :=
  match path with
  | none => builtin
  | some path =>
    match load read readJson path with
    | .ok table => table
    | .error fault => degraded fault.message

end KeywordTable
end AsmOutline
