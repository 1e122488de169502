import AsmOutline.Number.Dyadic

/-! # Durations

A duration is a number of nanoseconds. The longest has as many seconds as fit in 64 bits.
Settings give a time in seconds, as a floating point number.
-/
namespace AsmOutline

/-- A number of seconds by the bits of its floating point number, so that also the numbers
that are no time at all keep their form. -/
structure Seconds where
  bits : UInt64
  deriving DecidableEq, Repr

namespace Seconds

def infinityBits : Nat := 2047 * Nat.pow 2 52

def ofFloat (x : Float) : Seconds :=
  ⟨x.toBits⟩

/-- Positive numbers, infinity included, have the bits from one up to those of infinity:
a larger pattern has the sign set or is no number. -/
def isPositive (s : Seconds) : Bool :=
  0 < s.bits.toNat && s.bits.toNat ≤ infinityBits

def isFinite (s : Seconds) : Bool :=
  Dyadic.exponentField s.bits < 2047

end Seconds

structure Duration where
  nanos : Nat
  deriving DecidableEq, Repr, Inhabited

namespace Duration

def perSecond : Nat := Nat.pow 10 9

def ofParts (seconds nanos : Nat) : Duration :=
  ⟨seconds * perSecond + nanos⟩

def ofMillis (millis : Nat) : Duration :=
  ⟨millis * Nat.pow 10 6⟩

def zero : Duration := ⟨0⟩

def longest : Duration := ⟨Nat.pow 2 64 * perSecond - 1⟩

def wholeSeconds (d : Duration) : Nat :=
  d.nanos / perSecond

def subsecNanos (d : Duration) : Nat :=
  d.nanos % perSecond

def exceeds (d limit : Duration) : Bool :=
  limit.nanos < d.nanos

/-- The nearest nanosecond. Too many seconds give the longest duration; a number that
is not positive gives none at all. -/
def ofSeconds (seconds : Seconds) : Duration :=
  if seconds.isPositive then
    if seconds.isFinite then
      let nanos := (Dyadic.ofBits seconds.bits).scaled 9
      if nanos ≤ longest.nanos then ⟨nanos⟩ else longest
    else longest
  else zero

/-- Seconds as a floating point number: the whole part and the fraction are converted on their own. -/
def toSeconds (d : Duration) : Float :=
  d.wholeSeconds.toUInt64.toFloat + d.subsecNanos.toUInt64.toFloat / 1e9

/-- Seconds with one place. -/
def tenthsText (d : Duration) : String :=
  let tenths := (Dyadic.ofFloat d.toSeconds).scaled 1
  s!"{tenths / 10}.{tenths % 10}"

end Duration
end AsmOutline
