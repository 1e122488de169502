import AsmOutline.Conventions.Cursor
import AsmOutline.Proofs.TokenShape
import Mathlib.Order.Bounds.Basic

/-! # The word around a cursor

A cursor is moved down to the largest character boundary. The word found there is the only
run without a boundary character that touches it and cannot be made longer on either side.
A window of the line around the cursor gives the same word, cut off at the window's edges.
-/
namespace AsmOutline
open Text

namespace Text

variable {s front rest : Text} {n : Nat} {p : Char → Bool}

theorem width_reverse (s : Text) : width s.reverse = width s := by
  induction s with
  | nil => rfl
  | cons c s ih => simp [ih, Nat.add_comm]

theorem dropWhile_stop (h : ∀ c ∈ s.head?, p c = false) : s.dropWhile p = s := by
  cases s with
  | nil => rfl
  | cons c s => simp [h c rfl]

theorem takeWhile_stop (h : ∀ c ∈ s.head?, p c = false) : s.takeWhile p = [] := by
  cases s with
  | nil => rfl
  | cons c s => simp [h c rfl]

/-- The longest run at the front of a text. -/
theorem exists_run_front (p : Char → Bool) (s : Text) :
    ∃ run rest, s = run ++ rest ∧ (∀ c ∈ run, p c = true) ∧ ∀ c ∈ rest.head?, p c = false := by
  refine ⟨s.takeWhile p, s.dropWhile p, List.takeWhile_append_dropWhile.symm,
    List.all_eq_true.1 List.all_takeWhile, ?_⟩
  intro c hc
  have hstop := List.head?_dropWhile_not p s
  rw [Option.mem_def.1 hc] at hstop
  exact hstop

theorem exists_run_back (p : Char → Bool) (s : Text) :
    ∃ rest run, s = rest ++ run ∧ (∀ c ∈ run, p c = true) ∧ ∀ c ∈ rest.getLast?, p c = false := by
  obtain ⟨run, rest, hs, hrun, hrest⟩ := exists_run_front p s.reverse
  refine ⟨rest.reverse, run.reverse, List.reverse_eq_append_iff.1 hs, ?_, ?_⟩
  · simpa using hrun
  · simpa using hrest

/-- The character behind the front part does not fit any more. -/
theorem splitFloor_stop (s : Text) (n : Nat) :
    ∀ c ∈ (splitFloor s n).2.head?, n < width (splitFloor s n).1 + c.utf8Size := by
  induction s generalizing n with
  | nil => simp [splitFloor]
  | cons d s ih =>
    unfold splitFloor
    split
    · intro c hc
      have hrest := ih (n - d.utf8Size) c hc
      rw [width_cons]
      omega
    · intro c hc
      obtain rfl : d = c := by simpa using hc
      rw [width_nil]
      omega

theorem splitFloor_eq (hle : width front ≤ n) (hlt : ∀ c ∈ rest.head?, n < width front + c.utf8Size) :
    splitFloor (front ++ rest) n = (front, rest) := by
  induction front generalizing n with
  | nil =>
    cases rest with
    | nil => rfl
    | cons c rest =>
      have hc := hlt c rfl
      rw [width_nil, Nat.zero_add] at hc
      rw [List.nil_append, splitFloor, if_neg (Nat.not_le.2 hc)]
  | cons d front ih =>
    rw [width_cons] at hle hlt
    have hrest : splitFloor (front ++ rest) (n - d.utf8Size) = (front, rest) := by
      apply ih
      · omega
      · intro c hc
        have hlast := hlt c hc
        omega
    rw [List.cons_append, splitFloor, if_pos (by omega), hrest]

theorem floorBoundary_isGreatest (s : Text) (n : Nat) :
    IsGreatest {b | IsBoundary s b ∧ b ≤ n} (floorBoundary s n) := by
  constructor
  · exact ⟨⟨_, _, (splitFloor_append s n).symm, rfl⟩, floorBoundary_le s n⟩
  · rintro b ⟨⟨front, rest, hs, rfl⟩, hb⟩
    by_contra hlt
    obtain ⟨m, hfront, hrest⟩ := exists_between ((splitFloor_append s n).trans hs)
      (Nat.le_of_lt (Nat.lt_of_not_le hlt))
    cases m with
    | nil => exact hlt (by rw [hfront, List.append_nil]; rfl)
    | cons c m =>
      have hstop := splitFloor_stop s n c (by rw [hrest]; rfl)
      rw [hfront, width_append, width_cons] at hb
      omega

theorem IsBoundary.le_width (h : IsBoundary s n) : n ≤ width s := by
  obtain ⟨front, rest, rfl, rfl⟩ := h
  rw [width_append]
  exact Nat.le_add_right _ _

/-- What is left of the first of two texts, and all of the second, or less than the second. -/
theorem width_dropWhile_append (p : Char → Bool) (s t : Text) :
    width t + width (s.dropWhile p) = max (width ((s ++ t).dropWhile p)) (width t) := by
  rw [List.dropWhile_append]
  split
  · next hs =>
    have hle : width (t.dropWhile p) ≤ width t := by
      have ht : width (t.takeWhile p ++ t.dropWhile p) = width t := by rw [List.takeWhile_append_dropWhile]
      rw [width_append] at ht
      omega
    rw [List.isEmpty_iff.1 hs, width_nil, Nat.max_eq_right hle, Nat.add_zero]
  · rw [width_append]
    omega

theorem width_takeWhile_append (p : Char → Bool) (s t : Text) :
    width (s.takeWhile p) = min (width ((s ++ t).takeWhile p)) (width s) := by
  have hs : s.takeWhile p ++ s.dropWhile p = s := List.takeWhile_append_dropWhile
  have hwidth : width (s.takeWhile p) + width (s.dropWhile p) = width s := by rw [← width_append, hs]
  rw [List.takeWhile_append]
  split
  · next hall =>
    have hself : s.takeWhile p = s := (List.takeWhile_prefix p).eq_of_length hall
    rw [hself, width_append]
    omega
  · omega

end Text

namespace Conventions

variable {rules : Conventions} {line front back : Text} {cursor offset : Nat} {span : Span}

/-- A run without a boundary character that touches the offset. On either side of it there is
a boundary character or the edge of the line. -/
structure IsWordAround (rules : Conventions) (line : Text) (offset : Nat) (span : Span) : Prop where
  start_le : span.start ≤ offset
  le_stop : offset ≤ span.stop
  cut : ∃ front word back, line = front ++ (word ++ back) ∧ span = ⟨width front, width front + width word⟩ ∧
    (∀ c ∈ word, rules.isBoundary c = false) ∧ (∀ c ∈ front.getLast?, rules.isBoundary c = true) ∧
    ∀ c ∈ back.head?, rules.isBoundary c = true

theorem wordBounds_of_halves {a b : Text} (hsplit : splitFloor line cursor = (front ++ a, b ++ back))
    (ha : ∀ c ∈ a, rules.isBoundary c = false) (hb : ∀ c ∈ b, rules.isBoundary c = false)
    (hfront : ∀ c ∈ front.getLast?, rules.isBoundary c = true)
    (hback : ∀ c ∈ back.head?, rules.isBoundary c = true) :
    rules.wordBounds line cursor = ⟨width front, width front + width (a ++ b)⟩ := by
  have hleft : (front ++ a).reverse.dropWhile (!rules.isBoundary ·) = front.reverse := by
    rw [List.reverse_append, List.dropWhile_append_of_pos (by simpa using ha)]
    apply dropWhile_stop
    rw [List.head?_reverse]
    simpa using hfront
  have hright : (b ++ back).takeWhile (!rules.isBoundary ·) = b := by
    rw [List.takeWhile_append_of_pos (by simpa using hb), takeWhile_stop (by simpa using hback), List.append_nil]
  simp only [wordBounds, hsplit, hleft, hright, width_reverse, width_append, Nat.add_assoc]

theorem isWordAround_wordBounds (rules : Conventions) (line : Text) (cursor : Nat) :
    rules.IsWordAround line (floorBoundary line cursor) (rules.wordBounds line cursor) := by
  obtain ⟨front, a, hleft, ha, hfront⟩ := exists_run_back (!rules.isBoundary ·) (splitFloor line cursor).1
  obtain ⟨b, back, hright, hb, hback⟩ := exists_run_front (!rules.isBoundary ·) (splitFloor line cursor).2
  simp only [Bool.not_eq_true', Bool.not_eq_false'] at ha hfront hb hback
  have hoffset : floorBoundary line cursor = width front + width a := by
    rw [floorBoundary, hleft, width_append]
  rw [wordBounds_of_halves (Prod.ext hleft hright) ha hb hfront hback, hoffset]
  refine ⟨Nat.le_add_right _ _, ?_, front, a ++ b, back, ?_, rfl, ?_, hfront, hback⟩
  · rw [width_append]
    exact Nat.add_le_add_left (Nat.le_add_right _ _) _
  · rw [← splitFloor_append line cursor, hleft, hright]
    simp only [List.append_assoc]
  · exact List.forall_mem_append.2 ⟨ha, hb⟩

/-- The word is the only run of this kind. -/
theorem wordBounds_eq_iff :
    rules.wordBounds line cursor = span ↔ rules.IsWordAround line (floorBoundary line cursor) span := by
  constructor
  · rintro rfl
    exact isWordAround_wordBounds rules line cursor
  · rintro ⟨hstart, hstop, front, word, back, hline, rfl, hword, hfront, hback⟩
    -- the cursor cuts the run in two
    have hhalves := (splitFloor_append line cursor).trans hline
    obtain ⟨a, hleft, hrest⟩ := exists_between hhalves.symm hstart
    have ha : width a ≤ width word := by
      rw [floorBoundary, hleft, width_append] at hstop
      exact Nat.le_of_add_le_add_left hstop
    obtain ⟨b, rfl, hright⟩ := exists_between hrest.symm ha
    obtain ⟨hworda, hwordb⟩ := List.forall_mem_append.1 hword
    exact wordBounds_of_halves (Prod.ext hleft hright) hworda hwordb hfront hback

/-- The window is a bounded piece of the line, and the cursor cuts the window where it cuts the line. -/
theorem window_spec (line : Text) (cursor : Nat) :
    ∃ before left right after, splitFloor line cursor = (before ++ left, right ++ after) ∧
      window line cursor = (width before, left ++ right) ∧ width before ≤ cursor ∧
      left.length ≤ windowLength ∧ right.length ≤ windowLength ∧
      splitFloor (left ++ right) (cursor - width before) = (left, right) := by
  have hcursor : width (splitFloor line cursor).1 ≤ cursor := floorBoundary_le line cursor
  have hnext := splitFloor_stop line cursor
  have hleft : ((splitFloor line cursor).1.reverse.drop windowLength).reverse ++
      ((splitFloor line cursor).1.reverse.take windowLength).reverse = (splitFloor line cursor).1 := by
    rw [← List.reverse_append, List.take_append_drop, List.reverse_reverse]
  have hright : (splitFloor line cursor).2.take windowLength ++ (splitFloor line cursor).2.drop windowLength =
      (splitFloor line cursor).2 := List.take_append_drop _ _
  rw [← hleft, width_append] at hcursor hnext
  refine ⟨_, _, _, _, Prod.ext hleft.symm hright.symm, ?_, by omega, ?_, List.length_take_le _ _, ?_⟩
  · rw [window, width_reverse]
  · rw [List.length_reverse]
    exact List.length_take_le _ _
  · apply splitFloor_eq
    · omega
    · -- the window reaches past the cursor, so the next character is in it
      intro c hc
      rw [List.head?_take, if_neg (by decide)] at hc
      have hlast := hnext c hc
      omega

variable {rules : Conventions} {line before left right after : Text} {cursor : Nat}

/-- A word in a piece of the line around the cursor is the word of the line, cut off at the
edges of the piece. -/
theorem wordBounds_piece (hline : splitFloor line cursor = (before ++ left, right ++ after))
    (hpiece : splitFloor (left ++ right) (cursor - width before) = (left, right)) :
    (rules.wordBounds (left ++ right) (cursor - width before)).shift (width before) =
      ⟨max (rules.wordBounds line cursor).start (width before),
        min (rules.wordBounds line cursor).stop (width before + width (left ++ right))⟩ := by
  have hstart := width_dropWhile_append (!rules.isBoundary ·) left.reverse before.reverse
  have hstop := width_takeWhile_append (!rules.isBoundary ·) right after
  rw [width_reverse, ← List.reverse_append] at hstart
  simp only [wordBounds, hline, hpiece, Span.shift, Span.mk.injEq, width_append]
  omega

/-- The word around a cursor is the longest run without a boundary character that touches the
largest character boundary up to the cursor. A bounded window around the cursor gives the part of the
word that lies in the window. -/
theorem wordBounds_maximal_and_windowed (rules : Conventions) (line : Text) (cursor : Nat) :
    IsGreatest {b | IsBoundary line b ∧ b ≤ min cursor (width line)} (floorBoundary line cursor) ∧
    (∀ span, rules.wordBounds line cursor = span ↔ rules.IsWordAround line (floorBoundary line cursor) span) ∧
    ∃ offset part, window line cursor = (offset, part) ∧ offset ≤ cursor ∧ part.length ≤ 2 * windowLength ∧
      slice? line offset (offset + width part) = some part ∧
      (rules.wordBounds part (cursor - offset)).shift offset =
        ⟨max (rules.wordBounds line cursor).start offset,
          min (rules.wordBounds line cursor).stop (offset + width part)⟩ := by
  obtain ⟨⟨hboundary, hle⟩, hgreatest⟩ := floorBoundary_isGreatest line cursor
  refine ⟨⟨⟨hboundary, le_min hle hboundary.le_width⟩, ?_⟩, fun span => wordBounds_eq_iff, ?_⟩
  · rintro b ⟨hb, hmin⟩
    exact hgreatest ⟨hb, hmin.trans (min_le_left _ _)⟩
  · obtain ⟨before, left, right, after, hline, hwindow, hoffset, hl, hr, hpiece⟩ := window_spec line cursor
    have hlength : (left ++ right).length ≤ 2 * windowLength := by
      rw [List.length_append]
      omega
    refine ⟨width before, left ++ right, hwindow, hoffset, hlength, ?_, wordBounds_piece hline hpiece⟩
    have htext : line = before ++ (left ++ right ++ after) := by
      rw [← splitFloor_append line cursor, hline]
      simp only [List.append_assoc]
    rw [htext, slice?_middle]

end Conventions
end AsmOutline
