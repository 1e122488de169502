import AsmOutline.Dialect
import Std.Data.ExtTreeMap

/-! # Keywords

A keyword table maps names in upper case to their entries. Look-up ignores letter case.
A table that stands in for one that could not be loaded is empty and says why.
-/
namespace AsmOutline
open Text

inductive Keyword.Kind
  | mnemonic
  | jump
  | register
  | directive
  | misc
  deriving DecidableEq, Repr

namespace Keyword.Kind

def name : Kind → String
  | mnemonic => "mnemonic"
  | jump => "jump"
  | register => "register"
  | directive => "directive"
  | misc => "misc"

def ofName? (text : Text) : Option Kind :=
  [mnemonic, jump, register, directive, misc].find? fun kind => kind.name.toList == lower (trim text)

end Keyword.Kind

structure Keyword where
  name : Text
  kind : Keyword.Kind
  instructionSet : Option InstructionSet := none
  dialect : Option Dialect := none
  description : String := ""
  deriving DecidableEq, Repr

structure KeywordTable where
  entries : Std.ExtTreeMap Text Keyword := ∅
  failure : Option String := none

namespace KeywordTable

def empty : KeywordTable := {}

def degraded (reason : String) : KeywordTable :=
  { failure := some reason }

/-- Of two entries with one name the later one is kept. -/
def ofEntries (entries : List Keyword) : KeywordTable :=
  { entries := entries.foldl (fun table entry => table.insert entry.name entry) ∅ }

def size (table : KeywordTable) : Nat :=
  table.entries.size

def isEmpty (table : KeywordTable) : Bool :=
  table.entries.isEmpty

/-- A name without small letters is looked up as it is. -/
def get? (table : KeywordTable) (name : Text) : Option Keyword :=
  if name.any Char.isLower then table.entries[upper name]? else table.entries[name]?

def kind? (table : KeywordTable) (name : Text) : Option Keyword.Kind :=
  (table.get? name).map Keyword.kind

/-- All entries, in the order of their names. -/
def toList (table : KeywordTable) : List Keyword :=
  table.entries.toList.map (·.2)

/-- Whether a name starts with `start`, and the entry is not bound to another dialect. -/
def isSought (start : Text) (dialect : Option Dialect) (entry : Keyword) : Bool :=
  (upper start).isPrefixOf entry.name &&
    match dialect, entry.dialect with
    | some wanted, some bound => wanted == bound
    | _, _ => true

/-- The entries that a search for the start of a name is after, in the order of their names. -/
def startingWith (table : KeywordTable) (start : Text) (dialect : Option Dialect) : List Keyword :=
  table.toList.filter (isSought start dialect)

end KeywordTable
end AsmOutline
