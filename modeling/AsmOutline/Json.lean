import AsmOutline.Text.Bytes

/-! # JSON values

Numbers keep the form they were written in: an integer that fits in 64 bits stays one,
and every other number is a floating point number. The fields of an object are in key
order, each key once.
-/
namespace AsmOutline

namespace Json

inductive Number
  | natural (n : Nat)
  | negative (n : Nat)
  | real (x : Float)

end Json

inductive Json
  | null
  | bool (b : Bool)
  | num (n : Json.Number)
  | str (s : String)
  | arr (items : List Json)
  | obj (fields : List (String × Json))

namespace Json

def insertField (key : String) (value : Json) : List (String × Json) → List (String × Json)
  | [] => [(key, value)]
  | (k, v) :: rest =>
    if key < k then (key, value) :: (k, v) :: rest
    else if key = k then (key, value) :: rest
    else (k, v) :: insertField key value rest

/-- The object with these fields; a later field replaces an earlier one of the same key. -/
def ofFields (fields : List (String × Json)) : Json :=
  .obj (fields.foldl (fun sorted field => insertField field.1 field.2 sorted) [])

def ofNat (n : Nat) : Json :=
  .num (.natural n)

def field? (key : String) : Json → Option Json
  | .obj fields => (fields.find? fun field => field.1 == key).map (·.2)
  | _ => none

def bool? : Json → Option Bool
  | .bool b => some b
  | _ => none

def str? : Json → Option String
  | .str s => some s
  | _ => none

def natural? : Json → Option Nat
  | .num (.natural n) => some n
  | _ => none

def float? : Json → Option Float
  | .num (.natural n) => some n.toUInt64.toFloat
  | .num (.negative n) => some (-n.toUInt64.toFloat)
  | .num (.real x) => some x
  | _ => none

def isObject : Json → Bool
  | .obj _ => true
  | _ => false

end Json

/-- The value that each text stands for, if it is JSON. -/
abbrev JsonReader := Text → Option Json

end AsmOutline
