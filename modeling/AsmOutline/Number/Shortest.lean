import AsmOutline.Number.Dyadic

/-! # The shortest decimal of a floating point number

The digits are the fewest that read back as the same number, the nearest of those, and
the even one of two equally near. Values from `0.00001` up to sixteen digits before the
point are written out; all others carry an exponent with its sign.
-/
namespace AsmOutline.Number

/-- The number `digits * 10 ^ exponent`. -/
structure Decimal where
  digits : Nat
  exponent : Int
  deriving DecidableEq, Repr

/-- Compares `a * 10 ^ i` with `n * 2 ^ j`. -/
def compareScaled (a : Nat) (i : Int) (n : Nat) (j : Int) : Ordering :=
  compare (a * Nat.pow 10 i.toNat * Nat.pow 2 (-j).toNat) (n * Nat.pow 2 j.toNat * Nat.pow 10 (-i).toNat)

/-- Whether a decimal lies between the midpoints to the two neighbours of `x`. The gap
below a power of two is half the gap above it. The midpoints themselves belong to `x`
when its significand is even. -/
def readsBack (x : Dyadic) (d : Decimal) : Bool :=
  let low := if x.m = Nat.pow 2 52 ∧ -1074 < x.q then 4 * x.m - 1 else 4 * x.m - 2
  let closed := x.m % 2 == 0
  let below := compareScaled d.digits d.exponent low (x.q - 2)
  let above := compareScaled d.digits d.exponent (4 * x.m + 2) (x.q - 2)
  (below == .gt || closed && below == .eq) && (above == .lt || closed && above == .eq)

/-- Whether `x` is at least `10 ^ k`. -/
def atLeastPower (x : Dyadic) (k : Int) : Bool :=
  compareScaled 1 k x.m x.q != .gt

/-- The number of digits before the point, for a non-zero `x`; not positive below a tenth. -/
def magnitude (x : Dyadic) : Int :=
  let estimate := ((Nat.log2 x.m : Int) + x.q) * 30103 / 100000 - 1
  if atLeastPower x (estimate + 2) then estimate + 3
  else if atLeastPower x (estimate + 1) then estimate + 2
  else if atLeastPower x estimate then estimate + 1
  else estimate

/-- The two neighbours of `x` on the grid `10 ^ exponent`, nearest first. -/
def neighbours (x : Dyadic) (exponent : Int) : List Decimal :=
  let num := x.m * Nat.pow 2 x.q.toNat * Nat.pow 10 (-exponent).toNat
  let den := Nat.pow 2 (-x.q).toNat * Nat.pow 10 exponent.toNat
  let floor := num / den
  if roundQuotient num den = floor then [⟨floor, exponent⟩, ⟨floor + 1, exponent⟩]
  else [⟨floor + 1, exponent⟩, ⟨floor, exponent⟩]

/-- The digits of a non-zero `x`. Seventeen always suffice; the exact value stands after them. -/
def shortest (x : Dyadic) : Decimal :=
  let top := magnitude x
  let grids := (List.range 17).map fun (n : Nat) => top - 1 - (n : Int)
  match grids.findSome? fun exponent => (neighbours x exponent).find? (readsBack x) with
  | some d => d
  | none => ⟨x.m * Nat.pow 2 x.q.toNat * Nat.pow 5 (-x.q).toNat, -(-x.q).toNat⟩

def stripZeros (d : Decimal) : Nat → Decimal
  | 0 => d
  | fuel + 1 =>
    if d.digits ≠ 0 ∧ d.digits % 10 = 0 then stripZeros ⟨d.digits / 10, d.exponent + 1⟩ fuel else d

def zeros (n : Nat) : String :=
  String.ofList (List.replicate n '0')

/-- Lays out a decimal without trailing zeros. -/
def layout (d : Decimal) : String :=
  let digits := (Nat.repr d.digits).toList
  let point := d.exponent + digits.length
  if 0 ≤ d.exponent ∧ point ≤ 16 then String.ofList digits ++ zeros d.exponent.toNat ++ ".0"
  else if 0 < point ∧ point ≤ 16 then
    String.ofList (digits.take point.toNat) ++ "." ++ String.ofList (digits.drop point.toNat)
  else if -5 < point ∧ point ≤ 0 then "0." ++ zeros (-point).toNat ++ String.ofList digits
  else
    let tail := if digits.length = 1 then "" else "." ++ String.ofList (digits.drop 1)
    let sign := if 0 < point then "+" else "-"
    String.ofList (digits.take 1) ++ tail ++ "e" ++ sign ++ Nat.repr (point - 1).natAbs

/-- The text of a finite number. -/
def floatText (x : Float) : String :=
  let sign := if x.toBits.toNat / Nat.pow 2 63 = 1 then "-" else ""
  let d := Dyadic.ofFloat x
  if d.m = 0 then sign ++ "0.0" else sign ++ layout (stripZeros (shortest d) 400)

end AsmOutline.Number
