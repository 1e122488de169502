import AsmOutline.Text.Blank

/-! # Numerals

A numeral is decimal, hexadecimal after `0x`, or hexadecimal before `h`. The group
marks `_` and `.` may stand anywhere in it, and its value fits in 64 bits.
-/
namespace AsmOutline
open Text

inductive BitWidth
  | byte
  | word
  | doubleword
  | quadword
  deriving DecidableEq, Repr

namespace BitWidth

def bits : BitWidth → Nat
  | byte => 8
  | word => 16
  | doubleword => 32
  | quadword => 64

def ofValue (value : Nat) : BitWidth :=
  if value < Nat.pow 2 8 then byte
  else if value < Nat.pow 2 16 then word
  else if value < Nat.pow 2 32 then doubleword
  else quadword

end BitWidth

structure Numeral where
  value : Nat
  width : BitWidth
  deriving DecidableEq, Repr

namespace Numeral

def digitValue (c : Char) : Option Nat :=
  if '0' ≤ c ∧ c ≤ '9' then some (c.toNat - '0'.toNat)
  else if 'a' ≤ c ∧ c ≤ 'z' then some (c.toNat - 'a'.toNat + 10)
  else if 'A' ≤ c ∧ c ≤ 'Z' then some (c.toNat - 'A'.toNat + 10)
  else none

def digitIn (base : Nat) (c : Char) : Option Nat :=
  (digitValue c).filter (· < base)

def positional (base : Nat) : Nat → Text → Option Nat
  | value, [] => some value
  | value, c :: cs => (digitIn base c).bind fun d => positional base (value * base + d) cs

/-- The value of a non-empty run of digits, unless it needs more than 64 bits. -/
def readDigits (base : Nat) (digits : Text) : Option Nat :=
  if digits.isEmpty then none else (positional base 0 digits).filter (· < Nat.pow 2 64)

def isGroupMark (c : Char) : Bool :=
  c == '_' || c == '.'

/-- The prefix decides before the suffix. -/
def readPlain (s : Text) : Option Nat :=
  match s with
  | '0' :: 'x' :: hex => readDigits 16 hex
  | '0' :: 'X' :: hex => readDigits 16 hex
  | _ =>
    match s.getLast? with
    | some 'h' => readDigits 16 s.dropLast
    | some 'H' => readDigits 16 s.dropLast
    | _ => readDigits 10 s

def read (token : Text) : Option Numeral :=
  (readPlain ((trim token).filter (!isGroupMark ·))).map fun value => ⟨value, .ofValue value⟩

end Numeral
end AsmOutline
