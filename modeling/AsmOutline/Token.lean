import AsmOutline.Conventions.LabelHead
import AsmOutline.Keyword

/-! # Tokens

A token is a classified span of one line.
-/
namespace AsmOutline
open Text

inductive Token.Kind
  | keyword (kind : Keyword.Kind)
  | labelDef
  | labelUse
  | constant
  | remark
  | unknown
  deriving DecidableEq, Repr

namespace Token.Kind

def name : Kind → String
  | keyword kind => kind.name
  | labelDef => "label-def"
  | labelUse => "label-use"
  | constant => "constant"
  | remark => "remark"
  | unknown => "unknown"

def isLabel : Kind → Bool
  | labelDef | labelUse => true
  | _ => false

/-- A remark or a constant is the last token of its line. -/
def endsLine : Kind → Bool
  | constant | remark => true
  | _ => false

end Token.Kind

structure Token where
  start : Nat
  stop : Nat
  kind : Token.Kind
  deriving DecidableEq, Repr

namespace Token

/-- Empty when the line does not cover the span. -/
def text (token : Token) (line : Text) : Text :=
  (slice? line token.start token.stop).getD []

def meets (token : Token) (range : Span) : Bool :=
  token.start < range.stop && range.start < token.stop

end Token

/-- A run of characters between two split characters, with its offset in the line. -/
structure Fragment where
  start : Nat
  text : Text
  deriving DecidableEq, Repr

namespace Fragment

def stop (fragment : Fragment) : Nat :=
  fragment.start + width fragment.text

def token (fragment : Fragment) (kind : Token.Kind) : Token :=
  ⟨fragment.start, fragment.stop, kind⟩

def cons (start : Nat) (run : Text) (later : List Fragment) : List Fragment :=
  match run with
  | [] => later
  | _ => ⟨start, run⟩ :: later

/-- The run at the front of a text that starts at `offset`, and the fragments after it. -/
def cut (offset : Nat) : Text → Text × List Fragment
  | [] => ([], [])
  | c :: cs =>
    let next := offset + c.utf8Size
    let parts := cut next cs
    if Conventions.isSplit c then ([], cons next parts.1 parts.2) else (c :: parts.1, parts.2)

/-- The non-empty fragments of a text that starts at `offset`. -/
def ofText (offset : Nat) (text : Text) : List Fragment :=
  let parts := cut offset text
  cons offset parts.1 parts.2

end Fragment
end AsmOutline
