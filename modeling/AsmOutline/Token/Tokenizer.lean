import AsmOutline.Numeral
import AsmOutline.Register
import AsmOutline.Token

/-! # Tokens of a line

A label at the head of a line comes first. The rest is cut into fragments, and each is
looked up in the keyword table. A remark takes the rest of the line, a jump claims the
fragment after it as its target, and a number that is no keyword ends the line.
-/
namespace AsmOutline
open Text

structure Tokenizer where
  table : KeywordTable
  rules : Conventions

namespace Tokenizer

/-- Directives that make the fragment before them a label. -/
def definingWords : List String := ["PROC", "EQU", "LABEL"]

/-- Words that may stand between a jump and its target. -/
def jumpQualifiers : List String := ["SHORT", "NEAR", "FAR", "WORD", "DWORD", "QWORD", "PTR"]

/-- Jump targets that are not names. -/
def anonymousTargets : List String := ["$", "@B", "@F"]

def anonymousLabel : Text := ['@', '@']

/-- Without keywords no register is recognised either. -/
def classify (t : Tokenizer) (fragment : Text) : Option Keyword.Kind :=
  match t.table.kind? fragment with
  | some kind => some kind
  | none => if !t.table.isEmpty && Register.isName fragment then some .register else none

def targetKind (t : Tokenizer) (fragment : Text) : Token.Kind :=
  if t.classify fragment = some .register then .keyword .register else .labelUse

def definedBy : List Fragment → Bool
  | [] => false
  | next :: _ => isOneOf definingWords next.text

/-- What the next fragment may be: any word, or the target of a jump. -/
inductive Phase
  | word
  | target
  deriving DecidableEq, Repr

/-- Tokens of the fragments of one segment; `stop` is the end of the whole line. -/
def scan (t : Tokenizer) (stop : Nat) : Phase → List Fragment → List Token
  | _, [] => []
  | phase, fragment :: rest =>
    match t.rules.remarkPos fragment.text with
    | some marker => [⟨fragment.start + marker, stop, .remark⟩]
    | none =>
      match phase with
      | .target =>
        if isOneOf jumpQualifiers fragment.text then
          fragment.token (.keyword .misc) :: t.scan stop .target rest
        else if isOneOf anonymousTargets fragment.text then t.scan stop .word rest
        else fragment.token (t.targetKind fragment.text) :: t.scan stop .word rest
      | .word =>
        match t.classify fragment.text with
        | some .jump => fragment.token (.keyword .jump) :: t.scan stop .target rest
        | some kind => fragment.token (.keyword kind) :: t.scan stop .word rest
        | none =>
          if (Numeral.read fragment.text).isSome then [fragment.token .constant]
          else if definedBy rest then fragment.token .labelDef :: t.scan stop .word rest
          else if t.table.isEmpty then fragment.token .unknown :: t.scan stop .word rest
          else t.scan stop .word rest

def segment (t : Tokenizer) (stop offset : Nat) (text : Text) : List Token :=
  t.scan stop .word (Fragment.ofText offset text)

/-- A second colon after a label belongs to it. -/
def afterColons (offset : Nat) (after : Text) : Nat × Text :=
  match after with
  | ':' :: rest => (offset + 1, rest)
  | _ => (offset, after)

def labelToken (head : LabelHead) : List Token :=
  if head.name = anonymousLabel then [] else [⟨head.span.start, head.span.stop, .labelDef⟩]

def tokens (t : Tokenizer) (line : Text) : List Token :=
  let stop := width line
  match t.rules.labelHead? line with
  | none => t.segment stop 0 line
  | some head =>
    let front := t.segment stop 0 head.before
    if front.any (·.kind.endsLine) then front
    else
      let rest := afterColons (head.span.stop + 1) head.after
      front ++ labelToken head ++ t.segment stop rest.1 rest.2

def tokensIn (t : Tokenizer) (line : Text) (range : Span) : List Token :=
  (t.tokens line).filter (·.meets range)

def labelTokens (t : Tokenizer) (line : Text) : List Token :=
  (t.tokens line).filter (·.kind.isLabel)

end Tokenizer
end AsmOutline
