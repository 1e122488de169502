/-! # Byte offsets into a text

A text is a list of characters. Every offset counts the bytes of its UTF-8 form, so
an offset is a character boundary exactly when it is the width of some front part.
-/
namespace AsmOutline

abbrev Text := List Char

namespace Text

def width : Text → Nat
  | [] => 0
  | c :: cs => c.utf8Size + width cs

@[simp] theorem width_nil : width [] = 0 := rfl

@[simp] theorem width_cons (c : Char) (cs : Text) : width (c :: cs) = c.utf8Size + width cs := rfl

@[simp] theorem width_append (s t : Text) : width (s ++ t) = width s + width t := by
  induction s with
  | nil => simp
  | cons c s ih => simp [ih, Nat.add_assoc]

/-- The longest front part of at most `n` bytes, and the rest. -/
def splitFloor : Text → Nat → Text × Text
  | [], _ => ([], [])
  | c :: cs, n =>
    if c.utf8Size ≤ n then
      let halves := splitFloor cs (n - c.utf8Size)
      (c :: halves.1, halves.2)
    else ([], c :: cs)

theorem splitFloor_append (s : Text) (n : Nat) : (splitFloor s n).1 ++ (splitFloor s n).2 = s := by
  induction s generalizing n with
  | nil => rfl
  | cons c s ih =>
    unfold splitFloor
    split
    · simp [ih]
    · rfl

/-- The largest character boundary not above `n`. -/
def floorBoundary (s : Text) (n : Nat) : Nat :=
  width (splitFloor s n).1

theorem floorBoundary_le (s : Text) (n : Nat) : floorBoundary s n ≤ n := by
  unfold floorBoundary
  induction s generalizing n with
  | nil => simp [splitFloor]
  | cons c s ih =>
    unfold splitFloor
    split
    · have h := ih (n - c.utf8Size)
      simp only [width_cons]
      omega
    · simp

/-- What follows the first `n` bytes, when `n` is a boundary. -/
def dropBytes? : Text → Nat → Option Text
  | s, 0 => some s
  | [], _ + 1 => none
  | c :: cs, n + 1 => if c.utf8Size ≤ n + 1 then dropBytes? cs (n + 1 - c.utf8Size) else none

/-- The first `n` bytes, when `n` is a boundary. -/
def takeBytes? : Text → Nat → Option Text
  | _, 0 => some []
  | [], _ + 1 => none
  | c :: cs, n + 1 =>
    if c.utf8Size ≤ n + 1 then (takeBytes? cs (n + 1 - c.utf8Size)).map (c :: ·) else none

/-- The bytes from `start` up to `stop`, when both are boundaries in this order. -/
def slice? (s : Text) (start stop : Nat) : Option Text :=
  if start ≤ stop then (dropBytes? s start).bind (takeBytes? · (stop - start)) else none

@[simp] theorem dropBytes?_zero (s : Text) : dropBytes? s 0 = some s := by
  cases s <;> rfl

@[simp] theorem takeBytes?_zero (s : Text) : takeBytes? s 0 = some [] := by
  cases s <;> rfl

theorem dropBytes?_width_append (s t : Text) : dropBytes? (s ++ t) (width s) = some t := by
  induction s with
  | nil => simp
  | cons c s ih =>
    have hc := c.utf8Size_pos
    obtain ⟨n, hn⟩ : ∃ n, width (c :: s) = n + 1 := ⟨c.utf8Size + width s - 1, by simp; omega⟩
    rw [hn, List.cons_append, dropBytes?, if_pos (by simp at hn; omega)]
    rw [show n + 1 - c.utf8Size = width s by simp at hn; omega, ih]

theorem takeBytes?_width_append (s t : Text) : takeBytes? (s ++ t) (width s) = some s := by
  induction s with
  | nil => simp
  | cons c s ih =>
    have hc := c.utf8Size_pos
    obtain ⟨n, hn⟩ : ∃ n, width (c :: s) = n + 1 := ⟨c.utf8Size + width s - 1, by simp; omega⟩
    rw [hn, List.cons_append, takeBytes?, if_pos (by simp at hn; omega)]
    rw [show n + 1 - c.utf8Size = width s by simp at hn; omega, ih]
    rfl

end Text

/-- A half-open range of byte offsets or of lines. -/
structure Span where
  start : Nat
  stop : Nat
  deriving DecidableEq, Repr

def Span.shift (span : Span) (offset : Nat) : Span :=
  ⟨span.start + offset, span.stop + offset⟩

end AsmOutline
