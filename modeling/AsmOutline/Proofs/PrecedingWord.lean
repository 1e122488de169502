import AsmOutline.Proofs.CursorWords
import Mathlib.Data.List.TakeWhile

/-! # The word before the current one

The search goes back from the character at the end of a stretch of the line. It passes over the
current word and the separators before that, and takes the word it then meets. So the stretch falls
into four parts in one way only, and there is a result exactly if it does. Both ends of the
stretch are moved down to character boundaries first, and every slice is taken between such.
-/
namespace AsmOutline
open Text

/-- The left end of a stretch is moved down to the same boundary whether the text goes on behind the
stretch or not. -/
theorem Text.splitFloor_min {before middle : Text} {n : Nat} (after : Text)
    (h : splitFloor (before ++ middle) n = (before, middle)) :
    splitFloor (before ++ (middle ++ after)) (min n (width before + width middle)) =
      (before, middle ++ after) := by
  have hle : width before ≤ n := by simpa [floorBoundary, h] using floorBoundary_le (before ++ middle) n
  apply splitFloor_eq
  · omega
  · intro c hc
    have hsize := c.utf8Size_pos
    cases middle with
    | nil =>
      rw [width_nil]
      omega
    | cons d middle =>
      obtain rfl : d = c := by simpa using hc
      have hstop : n < width before + d.utf8Size := by
        simpa [h] using splitFloor_stop (before ++ d :: middle) n
      omega

namespace Conventions

variable {rules : Conventions} {text front lead word gap current line : Text}

/-- A text that ends with a word, separators and a current word, which may be empty. The word cannot
be made longer to the left. -/
structure EndsWith (rules : Conventions) (text lead word gap current : Text) : Prop where
  parts : text = lead ++ (word ++ (gap ++ current))
  lead_separated : ∀ c ∈ lead.getLast?, rules.isSeparator c = true
  word_ne : word ≠ []
  word_unseparated : ∀ c ∈ word, rules.isSeparator c = false
  gap_ne : gap ≠ []
  gap_separators : ∀ c ∈ gap, rules.isSeparator c = true
  current_unseparated : ∀ c ∈ current, rules.isSeparator c = false

theorem readBack_unseparated (h : ∀ c ∈ current, rules.isSeparator c = false) : rules.readBack current = [] := by
  have hall : current.reverse.dropWhile (!rules.isSeparator ·) = [] := by
    apply List.dropWhile_eq_nil_iff.2
    simpa using h
  rw [readBack, hall]
  rfl

theorem readBack_eq (hfront : ∀ c ∈ front.getLast?, rules.isSeparator c = false) (hne : gap ≠ [])
    (hgap : ∀ c ∈ gap, rules.isSeparator c = true) (hcurrent : ∀ c ∈ current, rules.isSeparator c = false) :
    rules.readBack (front ++ (gap ++ current)) = front.reverse := by
  obtain ⟨c, cs, hcs⟩ := List.exists_cons_of_ne_nil (List.reverse_ne_nil_iff.2 hne)
  have hback : ∀ d ∈ c :: cs, rules.isSeparator d = true := by
    rw [← hcs]
    simpa using hgap
  obtain ⟨hc, htail⟩ := List.forall_mem_cons.1 hback
  have hreached : (front ++ (gap ++ current)).reverse.dropWhile (!rules.isSeparator ·) =
      c :: (cs ++ front.reverse) := by
    rw [List.reverse_append, List.reverse_append, List.append_assoc,
      List.dropWhile_append_of_pos (by simpa using hcurrent), hcs, List.cons_append]
    simp [hc]
  have hstop : front.reverse.dropWhile rules.isSeparator = front.reverse := by
    apply dropWhile_stop
    rw [List.head?_reverse]
    exact hfront
  rw [readBack, hreached, List.drop_one, List.tail_cons, List.dropWhile_append_of_pos htail, hstop]

theorem EndsWith.readBack_eq (h : rules.EndsWith text lead word gap current) :
    rules.readBack text = (lead ++ word).reverse := by
  have hfront : ∀ c ∈ (lead ++ word).getLast?, rules.isSeparator c = false := by
    intro c hc
    rw [List.getLast?_append, List.getLast?_eq_some_getLast h.word_ne, Option.some_or] at hc
    obtain rfl := Option.some.inj hc
    exact h.word_unseparated _ (List.getLast_mem h.word_ne)
  rw [h.parts, ← List.append_assoc]
  exact Conventions.readBack_eq hfront h.gap_ne h.gap_separators h.current_unseparated

theorem EndsWith.readBack_lead (h : rules.EndsWith text lead word gap current) :
    (rules.readBack text).dropWhile (!rules.isSeparator ·) = lead.reverse := by
  rw [h.readBack_eq, List.reverse_append, List.dropWhile_append_of_pos (by simpa using h.word_unseparated)]
  apply dropWhile_stop
  rw [List.head?_reverse]
  simpa using h.lead_separated

/-- Where one side of a cut asks for a separator and the other for none, nothing stands there. -/
theorem eq_nil_of_getLast? {q : Char → Bool} (ht : ∀ c ∈ text.getLast?, q c = true)
    (hf : ∀ c ∈ text.getLast?, q c = false) : text = [] := by
  cases hlast : text.getLast? with
  | none => exact List.getLast?_eq_none_iff.1 hlast
  | some c =>
    have hc := ht c hlast
    rw [hf c hlast] at hc
    cases hc

theorem exists_endsWith (h : rules.readBack text ≠ []) :
    ∃ lead word gap current, rules.EndsWith text lead word gap current := by
  obtain ⟨rest, current, rfl, hcurrent, hrest⟩ := exists_run_back (!rules.isSeparator ·) text
  obtain ⟨front, gap, rfl, hgap, hfront⟩ := exists_run_back rules.isSeparator rest
  obtain ⟨lead, word, rfl, hword, hlead⟩ := exists_run_back (!rules.isSeparator ·) front
  simp only [Bool.not_eq_true', Bool.not_eq_false'] at hcurrent hrest hword hlead
  have hgap_ne : gap ≠ [] := by
    rintro rfl
    rw [List.append_nil] at h hrest
    rw [eq_nil_of_getLast? hrest hfront, List.nil_append] at h
    exact h (readBack_unseparated hcurrent)
  have hword_ne : word ≠ [] := by
    rintro rfl
    rw [List.append_nil] at h hfront
    rw [eq_nil_of_getLast? hlead hfront, List.append_assoc, readBack_eq (by simp) hgap_ne hgap hcurrent] at h
    exact h rfl
  exact ⟨lead, word, gap, current, by simp, hlead, hword_ne, hword, hgap_ne, hgap, hcurrent⟩

theorem EndsWith.wordBeforeLast?_eq (h : rules.EndsWith text lead word gap current) :
    rules.wordBeforeLast? text = some ⟨width lead, width lead + width word⟩ := by
  have hne : ¬(rules.readBack text).isEmpty = true := by
    rw [h.readBack_eq]
    simp [h.word_ne]
  rw [wordBeforeLast?, if_neg hne, h.readBack_lead, h.readBack_eq, width_reverse, width_reverse, width_append]

theorem wordBeforeLast?_eq_some_iff {span : Span} :
    rules.wordBeforeLast? text = some span ↔ ∃ lead word gap current,
      rules.EndsWith text lead word gap current ∧ span = ⟨width lead, width lead + width word⟩ := by
  constructor
  · intro h
    have hne : rules.readBack text ≠ [] := by
      intro hnil
      rw [wordBeforeLast?, hnil] at h
      cases h
    obtain ⟨lead, word, gap, current, hparts⟩ := exists_endsWith hne
    rw [hparts.wordBeforeLast?_eq] at h
    exact ⟨lead, word, gap, current, hparts, (Option.some.inj h).symm⟩
  · rintro ⟨lead, word, gap, current, hparts, rfl⟩
    exact hparts.wordBeforeLast?_eq

theorem shift_wordBeforeLast?_eq_some_iff {span : Span} {offset : Nat} :
    (rules.wordBeforeLast? text).map (·.shift offset) = some span ↔ ∃ lead word gap current,
      rules.EndsWith text lead word gap current ∧
        span = ⟨offset + width lead, offset + width lead + width word⟩ := by
  have hshift (lead word : Text) : Span.shift ⟨width lead, width lead + width word⟩ offset =
      ⟨offset + width lead, offset + width lead + width word⟩ := by
    simp only [Span.shift, Span.mk.injEq]
    omega
  simp only [Option.map_eq_some_iff, wordBeforeLast?_eq_some_iff]
  constructor
  · rintro ⟨_, ⟨lead, word, gap, current, hparts, rfl⟩, rfl⟩
    exact ⟨lead, word, gap, current, hparts, hshift lead word⟩
  · rintro ⟨lead, word, gap, current, hparts, rfl⟩
    exact ⟨_, ⟨lead, word, gap, current, hparts, rfl⟩, hshift lead word⟩

/-- The search takes place in a stretch of the line, from one boundary up to and with the
character at the other. -/
theorem previousWord?_stretch (rules : Conventions) (line : Text) (start stop : Nat) :
    ∃ before middle after, line = before ++ (middle ++ after) ∧
      floorBoundary line stop = width before + width middle ∧
      floorBoundary line (min start (floorBoundary line stop)) = width before ∧
      rules.previousWord? line start stop = if middle.isEmpty then none
        else (rules.wordBeforeLast? (middle ++ after.take 1)).map (·.shift (width before)) := by
  have hline := splitFloor_append line stop
  generalize hhalves : splitFloor line stop = halves at hline
  obtain ⟨left, after⟩ := halves
  have hleft := splitFloor_append left start
  generalize hstretch : splitFloor left start = stretch at hleft
  obtain ⟨before, middle⟩ := stretch
  subst hleft
  have htext : line = before ++ (middle ++ after) := by rw [← hline, List.append_assoc]
  have hstop : floorBoundary line stop = width before + width middle := by
    rw [floorBoundary, hhalves, width_append]
  refine ⟨before, middle, after, htext, hstop, ?_, ?_⟩
  · rw [hstop, floorBoundary, htext, splitFloor_min after hstretch]
  · simp only [previousWord?, hhalves, hstretch]

/-- With both offsets moved down to boundaries there is a word before the current one exactly if the
stretch between them ends with a word, separators and a current word. Its span is that of the
word, and all slices are taken between boundaries. -/
theorem previousWord?_iff_endsWith (rules : Conventions) (line : Text) (start stop : Nat) :
    ∃ first last tail stretch,
      IsGreatest {b | IsBoundary line b ∧ b ≤ stop} last ∧
      IsGreatest {b | IsBoundary line b ∧ b ≤ min start last} first ∧
      slice? line last (width line) = some tail ∧
      slice? line first (last + width (tail.take 1)) = some stretch ∧
      (∀ span, rules.previousWord? line start stop = some span ↔ first < last ∧
        ∃ lead word gap current, rules.EndsWith stretch lead word gap current ∧
          span = ⟨first + width lead, first + width lead + width word⟩) ∧
      ∀ lead word gap current, rules.EndsWith stretch lead word gap current →
        slice? line (first + width lead) (first + width lead + width word) = some word := by
  obtain ⟨before, middle, after, htext, hlast, hfirst, hword⟩ := rules.previousWord?_stretch line start stop
  have hmiddle : line = before ++ (middle ++ after.take 1 ++ after.drop 1) := by
    rw [htext, List.append_assoc, List.take_append_drop]
  refine ⟨width before, width before + width middle, after, middle ++ after.take 1, ?_, ?_, ?_, ?_, ?_, ?_⟩
  · rw [← hlast]
    exact floorBoundary_isGreatest line stop
  · rw [← hlast, ← hfirst]
    exact floorBoundary_isGreatest line _
  · rw [htext, ← List.append_assoc, ← width_append, slice?_rest]
  · rw [hmiddle, Nat.add_assoc, ← width_append, slice?_middle]
  · intro span
    rw [hword]
    cases middle with
    | nil => simp
    | cons c middle =>
      have hlt : width before < width before + width (c :: middle) :=
        Nat.lt_add_of_pos_right (width_pos (List.cons_ne_nil c middle))
      simp only [List.isEmpty_cons, Bool.false_eq_true, if_false, hlt, true_and]
      exact shift_wordBeforeLast?_eq_some_iff
  · intro lead word gap current hparts
    have hinside : line = before ++ lead ++ (word ++ (gap ++ current ++ after.drop 1)) := by
      rw [hmiddle, hparts.parts]
      simp only [List.append_assoc]
    rw [hinside, ← width_append, slice?_middle]

end Conventions
end AsmOutline
