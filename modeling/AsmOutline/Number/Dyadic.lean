/-! # Exact values of floating point numbers

A finite binary64 number is an integer times a power of two. Rounding to decimal
places is done on that exact value, and a tie goes to the even neighbour.
-/
namespace AsmOutline

/-- The number `m * 2 ^ q`. -/
structure Dyadic where
  m : Nat
  q : Int
  deriving DecidableEq, Repr

/-- The quotient rounded to the nearest integer, ties to even. -/
def roundQuotient (num den : Nat) : Nat :=
  let whole := num / den
  match compare (2 * (num % den)) den with
  | .lt => whole
  | .gt => whole + 1
  | .eq => whole + whole % 2

namespace Dyadic

def exponentField (bits : UInt64) : Nat :=
  bits.toNat / Nat.pow 2 52 % Nat.pow 2 11

def fractionField (bits : UInt64) : Nat :=
  bits.toNat % Nat.pow 2 52

/-- The magnitude of a finite number, from its bits. -/
def ofBits (bits : UInt64) : Dyadic :=
  if exponentField bits = 0 then ⟨fractionField bits, -1074⟩
  else ⟨Nat.pow 2 52 + fractionField bits, (exponentField bits : Int) - 1075⟩

def ofFloat (x : Float) : Dyadic :=
  ofBits x.toBits

/-- Times `10 ^ places`, rounded to an integer. -/
def scaled (x : Dyadic) (places : Nat) : Nat :=
  roundQuotient (x.m * Nat.pow 10 places * Nat.pow 2 x.q.toNat) (Nat.pow 2 (-x.q).toNat)

end Dyadic
end AsmOutline
