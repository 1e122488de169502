import AsmOutline.Token.Tokenizer

/-! # The labels of one line

A local label starts with a dot and is keyed under the closest non-local label defined
before it, which is its parent.
-/
namespace AsmOutline
open Text

structure LabelSite where
  name : Text
  start : Nat
  stop : Nat
  deriving DecidableEq, Repr

/-- `opens` is the last non-local label defined on the line: the parent of what follows. -/
structure LabelRecord where
  defs : List LabelSite := []
  uses : List LabelSite := []
  opens : Option Text := none
  deriving DecidableEq, Repr

namespace LabelRecord

def isLocal (name : Text) : Bool :=
  match name with
  | '.' :: _ :: _ => true
  | _ => false

def key (parent : Option Text) (name : Text) : Text :=
  match parent with
  | some parent => if isLocal name then parent ++ name else name
  | none => name

/-- The non-local label that a token defines. -/
def opening (name : Text) : Option Text :=
  if isLocal name then none else some name

def ofTokens (line : Text) : Option Text → List Token → LabelRecord
  | _, [] => {}
  | parent, token :: rest =>
    let name := token.text line
    let site : LabelSite := ⟨key parent name, token.start, token.stop⟩
    if token.kind = .labelDef then
      let later := ofTokens line ((opening name).or parent) rest
      { later with defs := site :: later.defs, opens := later.opens.or (opening name) }
    else
      let later := ofTokens line parent rest
      { later with uses := site :: later.uses }

def scan (t : Tokenizer) (parent : Option Text) (line : Text) : LabelRecord :=
  ofTokens line parent (t.labelTokens line)

def isEmpty (record : LabelRecord) : Bool :=
  record.defs.isEmpty && record.uses.isEmpty

def siteAt? (record : LabelRecord) (start : Nat) : Option LabelSite :=
  (record.defs ++ record.uses).find? (·.start == start)

end LabelRecord
end AsmOutline
