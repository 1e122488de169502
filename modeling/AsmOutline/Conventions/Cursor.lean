import AsmOutline.Conventions

/-! # Words around a cursor

A cursor is any byte offset; it is first moved down to a character boundary of the line.
-/
namespace AsmOutline.Conventions
open Text

/-- The longest run without a boundary character that touches the cursor. -/
def wordBounds (rules : Conventions) (line : Text) (cursor : Nat) : Span :=
  let halves := splitFloor line cursor
  { start := width (halves.1.reverse.dropWhile (!rules.isBoundary ·))
    stop := width halves.1 + width (halves.2.takeWhile (!rules.isBoundary ·)) }

def wordAt? (rules : Conventions) (line : Text) (cursor : Nat) : Option Text :=
  let bounds := rules.wordBounds line cursor
  if bounds.start < bounds.stop then slice? line bounds.start bounds.stop else none

def windowLength : Nat := 100

/-- At most `windowLength` characters on each side of the cursor, with their offset. -/
def window (line : Text) (cursor : Nat) : Nat × Text :=
  let halves := splitFloor line cursor
  let left := halves.1.reverse
  (width (left.drop windowLength), (left.take windowLength).reverse ++ halves.2.take windowLength)

/-- What is left of a text, read from its end, behind the current word and the separators before it. -/
def readBack (rules : Conventions) (text : Text) : Text :=
  ((text.reverse.dropWhile (!rules.isSeparator ·)).drop 1).dropWhile rules.isSeparator

/-- The span of the word before the last one of a text. -/
def wordBeforeLast? (rules : Conventions) (text : Text) : Option Span :=
  let earlier := rules.readBack text
  if earlier.isEmpty then none
  else some ⟨width (earlier.dropWhile (!rules.isSeparator ·)), width earlier⟩

/-- The word before the one that holds `stop`, no further left than `start`.
The character at `stop` still counts as part of the current word. -/
def previousWord? (rules : Conventions) (line : Text) (start stop : Nat) : Option Span :=
  let halves := splitFloor line stop
  let left := splitFloor halves.1 start
  if left.2.isEmpty then none
  else (rules.wordBeforeLast? (left.2 ++ halves.2.take 1)).map (·.shift (width left.1))

end AsmOutline.Conventions
