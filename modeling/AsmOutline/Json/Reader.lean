import AsmOutline.Json
import AsmOutline.Text.Bytes
import AsmOutline.Numeral

/-! # Strict JSON text

Reading accepts exactly one value with JSON blanks around it. Arrays and objects may be
nested 127 deep. A floating point number is its first digits, as many as fit in 64 bits,
rounded to binary64 and then multiplied or divided by a rounded power of ten.
-/
namespace AsmOutline.Json
open Text

def isSpace (c : Char) : Bool :=
  c == ' ' || c == '\n' || c == '\t' || c == '\r'

def skipSpace (s : Text) : Text :=
  s.dropWhile isSpace

def expect? (word s : Text) : Option Text :=
  if word.isPrefixOf s then some (s.drop word.length) else none

/-! ### Numbers -/

/-- What is known of a number while its digits are read: the first digits, and the power
of ten that they still have to be scaled by. -/
structure Digits where
  significand : Nat
  exponent : Int

/-- Takes a digit into the significand unless it would pass 64 bits. -/
def Digits.push? (d : Digits) (c : Char) : Option Nat :=
  (Numeral.digitIn 10 c).bind fun digit =>
    let next := d.significand * 10 + digit
    if next < Nat.pow 2 64 then some next else none

def wholeDigits : Digits → Text → Digits
  | d, [] => d
  | d, c :: cs =>
    match d.push? c with
    | some next => wholeDigits { d with significand := next } cs
    | none => { d with exponent := d.exponent + (c :: cs).length }

def fractionDigits : Digits → Text → Digits
  | d, [] => d
  | d, c :: cs =>
    match d.push? c with
    | some next => fractionDigits ⟨next, d.exponent - 1⟩ cs
    | none => d

def powerOfTen (n : Nat) : Float :=
  Float.ofScientific 1 false n

/-- Divides by `10 ^ 308` as often as the exponent is below what one division can do. -/
def shrink : Nat → Float → Nat → Float
  | 0, x, _ => x
  | fuel + 1, x, n =>
    if n ≤ 308 then x / powerOfTen n
    else if x == 0 then x
    else shrink fuel (x / powerOfTen 308) (n - 308)

def Digits.toFloat? (d : Digits) : Option Float :=
  let x := d.significand.toUInt64.toFloat
  if 0 ≤ d.exponent then
    if d.significand = 0 then some x
    else if 308 < d.exponent then none
    else
      let y := x * powerOfTen d.exponent.toNat
      if y.isInf then none else some y
  else some (shrink 8 x (-d.exponent).toNat)

def splitDigits (s : Text) : Text × Text :=
  (s.takeWhile Char.isDigit, s.dropWhile Char.isDigit)

/-- The whole part: a lone zero, or digits that do not start with one. -/
def whole? (s : Text) : Option (Text × Text) :=
  match splitDigits s with
  | ([], _) => none
  | ('0' :: _ :: _, _) => none
  | parts => some parts

def fraction? (s : Text) : Option (Option Text × Text) :=
  match s with
  | '.' :: rest =>
    match splitDigits rest with
    | ([], _) => none
    | (digits, rest) => some (some digits, rest)
  | _ => some (none, s)

/-- The sign and digits of an exponent part. -/
def exponent? (s : Text) : Option (Option (Bool × Text) × Text) :=
  match s with
  | c :: rest =>
    if c == 'e' || c == 'E' then
      let (negative, rest) :=
        match rest with
        | '+' :: rest => (false, rest)
        | '-' :: rest => (true, rest)
        | _ => (false, rest)
      match splitDigits rest with
      | ([], _) => none
      | (digits, rest) => some (some (negative, digits), rest)
    else some (none, s)
  | [] => some (none, s)

def decimalValue (digits : Text) : Nat :=
  digits.foldl (fun value c => value * 10 + (c.toNat - '0'.toNat)) 0

def signed (negative : Bool) (x : Float) : Float :=
  if negative then -x else x

def integer (negative : Bool) (n : Nat) : Number :=
  if negative then
    if 0 < n ∧ n ≤ Nat.pow 2 63 then .negative n else .real (-n.toUInt64.toFloat)
  else .natural n

/-- An exponent that does not fit in 31 bits gives zero or is refused. -/
def scaled? (d : Digits) (exponent : Option (Bool × Text)) : Option Float :=
  match exponent with
  | none => d.toFloat?
  | some (negative, digits) =>
    let n := decimalValue digits
    if n < Nat.pow 2 31 then
      Digits.toFloat? { d with exponent := if negative then d.exponent - n else d.exponent + n }
    else if d.significand = 0 ∨ negative then some 0
    else none

def number? (s : Text) : Option (Number × Text) := do
  let (negative, s) :=
    match s with
    | '-' :: rest => (true, rest)
    | _ => (false, s)
  let (whole, s) ← whole? s
  let (fraction, s) ← fraction? s
  let (exponent, s) ← exponent? s
  let d := wholeDigits ⟨0, 0⟩ whole
  if fraction.isNone && exponent.isNone && d.exponent == 0 then
    return (integer negative d.significand, s)
  let d := fractionDigits d (fraction.getD [])
  let x ← scaled? d exponent
  return (.real (signed negative x), s)

/-! ### Strings -/

def hex4? (s : Text) : Option (Nat × Text) :=
  match s with
  | a :: b :: c :: d :: rest => (Numeral.positional 16 0 [a, b, c, d]).map (·, rest)
  | _ => none

/-- A code point escape, or two of them that make a surrogate pair. -/
def unicodeEscape? (s : Text) : Option (Char × Text) := do
  let (high, rest) ← hex4? s
  if 0xDC00 ≤ high ∧ high ≤ 0xDFFF then none
  else if 0xD800 ≤ high ∧ high ≤ 0xDBFF then
    match rest with
    | '\\' :: 'u' :: rest =>
      let (low, rest) ← hex4? rest
      if 0xDC00 ≤ low ∧ low ≤ 0xDFFF then
        return (Char.ofNat (0x10000 + (high - 0xD800) * 0x400 + (low - 0xDC00)), rest)
      else none
    | _ => none
  else return (Char.ofNat high, rest)

/-- What a backslash and the text after it stand for. -/
def escape? (s : Text) : Option (Char × Text) :=
  match s with
  | '"' :: rest => some ('"', rest)
  | '\\' :: rest => some ('\\', rest)
  | '/' :: rest => some ('/', rest)
  | 'b' :: rest => some (Char.ofNat 0x08, rest)
  | 'f' :: rest => some (Char.ofNat 0x0C, rest)
  | 'n' :: rest => some ('\n', rest)
  | 'r' :: rest => some ('\r', rest)
  | 't' :: rest => some ('\t', rest)
  | 'u' :: rest => unicodeEscape? rest
  | _ => none

/-- The rest of a string after its opening quote; each step uses at least one character. -/
def stringBody? : Nat → Text → Option (Text × Text)
  | 0, _ => none
  | fuel + 1, s =>
    match s with
    | [] => none
    | '"' :: rest => some ([], rest)
    | '\\' :: rest => do
      let (c, rest) ← escape? rest
      let (cs, rest) ← stringBody? fuel rest
      return (c :: cs, rest)
    | c :: rest =>
      if c.toNat < 0x20 then none
      else (stringBody? fuel rest).map fun parts => (c :: parts.1, parts.2)

def string? (s : Text) : Option (String × Text) :=
  match s with
  | '"' :: rest => (stringBody? s.length rest).map fun parts => (String.ofList parts.1, parts.2)
  | _ => none

/-! ### Values -/

abbrev Read (α : Type) := Text → Option (α × Text)

/-- Items after the first, up to the closing character. -/
def moreItems {α : Type} (item : Read α) (close : Char) : Nat → Read (List α)
  | 0, _ => none
  | fuel + 1, s =>
    match skipSpace s with
    | c :: rest =>
      if c == close then some ([], rest)
      else if c == ',' then do
        let (first, rest) ← item (skipSpace rest)
        let (others, rest) ← moreItems item close fuel rest
        return (first :: others, rest)
      else none
    | [] => none

/-- The items of a bracketed list after its opening character. -/
def items? {α : Type} (item : Read α) (close : Char) : Read (List α) := fun s =>
  match skipSpace s with
  | c :: rest =>
    if c == close then some ([], rest)
    else do
      let (first, rest) ← item (c :: rest)
      let (others, rest) ← moreItems item close rest.length.succ rest
      return (first :: others, rest)
  | [] => none

def field (value : Read Json) : Read (String × Json) := fun s => do
  let (key, rest) ← string? s
  match skipSpace rest with
  | ':' :: rest =>
    let (v, rest) ← value (skipSpace rest)
    return ((key, v), rest)
  | _ => none

/-- A value whose arrays and objects are nested less than `depth` deep. -/
def value? : Nat → Read Json
  | 0, _ => none
  | depth + 1, s =>
    match s with
    | '"' :: _ => (string? s).map fun parts => (.str parts.1, parts.2)
    | '[' :: rest =>
      if depth = 0 then none else (items? (value? depth) ']' rest).map fun parts => (.arr parts.1, parts.2)
    | '\x7b' :: rest =>
      if depth = 0 then none
      else (items? (field (value? depth)) '\x7d' rest).map fun parts => (ofFields parts.1, parts.2)
    | 'n' :: _ => (expect? "null".toList s).map (.null, ·)
    | 't' :: _ => (expect? "true".toList s).map (.bool true, ·)
    | 'f' :: _ => (expect? "false".toList s).map (.bool false, ·)
    | _ => (number? s).map fun parts => (.num parts.1, parts.2)

def maxDepth : Nat := 128

def parse? (s : Text) : Option Json :=
  match value? maxDepth (skipSpace s) with
  | some (value, rest) => if (skipSpace rest).isEmpty then some value else none
  | none => none

end AsmOutline.Json
