import AsmOutline.Conventions

/-! # The label at the head of a line

The first word of a line is a label when a colon ends it. After `EXTRN` or `EXTERN` the
second word may be one too. A quote or a remark marker in the word means there is none.
-/
namespace AsmOutline
open Text

/-- A line cut at its label: `before ++ name ++ ':' :: after`. -/
structure LabelHead where
  before : Text
  name : Text
  after : Text
  deriving DecidableEq, Repr

namespace LabelHead

def span (head : LabelHead) : Span :=
  ⟨width head.before, width head.before + width head.name⟩

end LabelHead

namespace Conventions

/-- How the first word of a text ends: at a colon, at a blank, or in no way that matters. -/
inductive FirstWord
  | label (blanks name after : Text)
  | word (blanks word rest : Text)
  | nothing
  deriving DecidableEq, Repr

def endsWord (rules : Conventions) (c : Char) : Bool :=
  c == '"' || rules.isMarker c || rules.isSeparator c

def firstWord (rules : Conventions) (text : Text) : FirstWord :=
  let blanks := text.takeWhile isBlank
  let body := text.dropWhile isBlank
  let word := body.takeWhile (!rules.endsWord ·)
  match body.dropWhile (!rules.endsWord ·) with
  | [] => .nothing
  | c :: after =>
    if word.isEmpty || c == '"' || rules.isMarker c then .nothing
    else if c == ':' then .label blanks word after
    else if isBlank c then .word blanks word (c :: after)
    else .nothing

def isExtern (word : Text) : Bool :=
  isOneOf ["EXTRN", "EXTERN"] word

def labelHead? (rules : Conventions) (line : Text) : Option LabelHead :=
  match rules.firstWord line with
  | .label blanks name after => some ⟨blanks, name, after⟩
  | .word blanks word rest =>
    if isExtern word then
      match rules.firstWord rest with
      | .label gap name after => some ⟨blanks ++ word ++ gap, name, after⟩
      | _ => none
    else none
  | .nothing => none

def labelSpan? (rules : Conventions) (line : Text) : Option Span :=
  (rules.labelHead? line).map LabelHead.span

end Conventions
end AsmOutline
