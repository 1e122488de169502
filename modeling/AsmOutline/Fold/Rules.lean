import AsmOutline.Token.Tokenizer

/-! # What a line does to the folds

A line opens or closes a region by a tag or by a directive, it is a remark, or it does
nothing. Tags are tried first, the longer one before the other, in any letter case.
-/
namespace AsmOutline
open Text

structure FoldRules where
  beginTag : Text := "#region".toList
  endTag : Text := "#endregion".toList
  dialect : Dialect := .masm
  maxLines : Nat := 100000
  collapsed : Bool := false
  deriving DecidableEq, Repr

inductive LineRole
  | opens (level : Option Nat) (offset previewOffset : Nat)
  | closes (level : Option Nat)
  | remark (offset : Nat)
  | plain
  deriving DecidableEq, Repr

namespace FoldRules

def maxLevelHint : Nat := 64

/-- The first place where a text holds a word: its offset and what follows it. -/
def find? (word : Text) : Text → Option (Nat × Text)
  | [] => none
  | c :: cs =>
    if word.isPrefixOf (c :: cs) then some (0, (c :: cs).drop word.length)
    else (find? word cs).map fun place => (c.utf8Size + place.1, place.2)

def levelHint (digits : Text) : Option Nat :=
  if digits.isEmpty then none
  else (Numeral.positional 10 0 digits).filter fun level => 1 ≤ level && level ≤ maxLevelHint

/-- The role that a tag gives to a line in lower case. Digits right after it ask for a level. -/
def tagRole? (isBegin : Bool) (tag line : Text) : Option LineRole :=
  if tag.isEmpty then none
  else
    (find? tag line).map fun place =>
      let digits := place.2.takeWhile Char.isDigit
      let level := levelHint digits
      if isBegin then .opens level place.1 (place.1 + width tag + width digits) else .closes level

def byTags? (rules : FoldRules) (line : Text) : Option LineRole :=
  let opening := tagRole? true (lower rules.beginTag) (lower line)
  let closing := tagRole? false (lower rules.endTag) (lower line)
  if width rules.endTag ≤ width rules.beginTag then opening.or closing else closing.or opening

/-- The first directive that opens or closes decides. -/
def byDirectives (rules : FoldRules) (line : Text) : List Token → LineRole
  | [] => .plain
  | token :: rest =>
    let word := token.text line
    if token.kind ≠ .keyword .directive then byDirectives rules line rest
    else if rules.dialect.opens word then .opens none token.start token.stop
    else if rules.dialect.closes word then .closes none
    else byDirectives rules line rest

def role (rules : FoldRules) (t : Tokenizer) (line : Text) : LineRole :=
  match rules.byTags? line with
  | some role => role
  | none =>
    if t.rules.isRemarkOnly line then .remark ((t.rules.remarkPos line).getD 0)
    else rules.byDirectives line (t.tokens line)

end FoldRules
end AsmOutline
