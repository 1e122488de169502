import AsmOutline.Fold.Descriptor
import AsmOutline.Label.Index

/-! # Line endings

A line ends in a line feed, with a carriage return before it or without one. Whatever ending
each line of a source has, splitting the text gives the lines back. The last ending may be
missing too, unless an empty last line would be lost with it.
-/
namespace AsmOutline
open Text

inductive LineEnd
  | feed
  | returnFeed
  deriving DecidableEq, Repr

namespace LineEnd

/-- What stands between a line and its line feed. -/
def lead : LineEnd → Text
  | feed => []
  | returnFeed => ['\r']

def text (ending : LineEnd) : Text :=
  ending.lead ++ ['\n']

theorem feed_not_mem_lead (ending : LineEnd) : '\n' ∉ ending.lead := by
  cases ending <;> decide

end LineEnd

namespace Source

variable {lines : List Text} {line : Text}

/-- A text that can stand before any ending and be told from it. -/
structure IsLine (line : Text) : Prop where
  no_feed : '\n' ∉ line
  no_return : line.getLast? ≠ some '\r'

instance (line : Text) : Decidable (IsLine line) :=
  decidable_of_iff ('\n' ∉ line ∧ line.getLast? ≠ some '\r') ⟨fun h => ⟨h.1, h.2⟩, fun h => ⟨h.1, h.2⟩⟩

/-- The lines one after the other, with an ending after each. -/
def endedText (ends : Nat → LineEnd) : List Text → Text
  | [] => []
  | line :: lines => line ++ (ends 0).text ++ endedText (fun n => ends (n + 1)) lines

/-- The same text without the ending of the last line. -/
def openText (ends : Nat → LineEnd) : List Text → Text
  | [] => []
  | [line] => line
  | line :: next :: lines => line ++ (ends 0).text ++ openText (fun n => ends (n + 1)) (next :: lines)

theorem splitFeeds_ne_nil (text : Text) : splitFeeds text ≠ [] := by
  fun_cases splitFeeds text <;> simp_all

theorem splitFeeds_append_feed (s t : Text) : splitFeeds (s ++ '\n' :: t) = splitFeeds s ++ splitFeeds t := by
  induction s with
  | nil => simp [splitFeeds]
  | cons c s ih =>
    by_cases hc : c = '\n'
    · rw [List.cons_append, splitFeeds, if_pos hc, ih, splitFeeds, if_pos hc, List.cons_append]
    · rw [List.cons_append, splitFeeds, if_neg hc, ih, splitFeeds, if_neg hc]
      cases hs : splitFeeds s with
      | nil => exact absurd hs (splitFeeds_ne_nil s)
      | cons piece pieces => rfl

theorem splitFeeds_of_no_feed (h : '\n' ∉ line) : splitFeeds line = [line] := by
  induction line with
  | nil => rfl
  | cons c line ih =>
    obtain ⟨hc, hline⟩ := List.ne_and_not_mem_of_not_mem_cons h
    rw [splitFeeds, if_neg hc.symm, ih hline]

theorem dropReturn_append_lead (h : line.getLast? ≠ some '\r') (ending : LineEnd) :
    dropReturn (line ++ ending.lead) = line := by
  cases ending with
  | feed => rw [LineEnd.lead, List.append_nil, dropReturn, if_neg h]
  | returnFeed => rw [LineEnd.lead, dropReturn, if_pos List.getLast?_concat, List.dropLast_concat]

/-- One line comes off the front of a text, whatever its ending. -/
theorem pieces_ended (h : IsLine line) (ending : LineEnd) (rest : Text) :
    (splitFeeds (line ++ ending.text ++ rest)).map dropReturn = line :: (splitFeeds rest).map dropReturn := by
  have hpiece : '\n' ∉ line ++ ending.lead := by
    rw [List.mem_append, not_or]
    exact ⟨h.no_feed, ending.feed_not_mem_lead⟩
  have hshape : line ++ ending.text ++ rest = (line ++ ending.lead) ++ '\n' :: rest := by
    rw [LineEnd.text, List.append_assoc, List.append_assoc, List.append_assoc, List.singleton_append]
  rw [hshape, splitFeeds_append_feed, splitFeeds_of_no_feed hpiece, List.singleton_append, List.map_cons,
    dropReturn_append_lead h.no_return]

theorem pieces_endedText (h : ∀ line ∈ lines, IsLine line) (ends : Nat → LineEnd) :
    (splitFeeds (endedText ends lines)).map dropReturn = lines ++ [[]] := by
  induction lines generalizing ends with
  | nil => rfl
  | cons line lines ih =>
    obtain ⟨hline, hlines⟩ := List.forall_mem_cons.1 h
    rw [endedText, pieces_ended hline, ih hlines, List.cons_append]

theorem pieces_openText (hne : lines ≠ []) (h : ∀ line ∈ lines, IsLine line) (ends : Nat → LineEnd) :
    (splitFeeds (openText ends lines)).map dropReturn = lines := by
  induction lines generalizing ends with
  | nil => exact absurd rfl hne
  | cons line lines ih =>
    obtain ⟨hline, hlines⟩ := List.forall_mem_cons.1 h
    cases lines with
    | nil =>
      rw [openText, splitFeeds_of_no_feed hline.no_feed, List.map_singleton, dropReturn, if_neg hline.no_return]
    | cons next lines => rw [openText, pieces_ended hline, ih (List.cons_ne_nil _ _) hlines]

/-- Of the pieces after the last line feed only an empty one is dropped. -/
theorem splitLines_endedText (hne : lines ≠ []) (h : ∀ line ∈ lines, IsLine line) (ends : Nat → LineEnd) :
    splitLines (endedText ends lines) = lines := by
  have hmany : 1 < (lines ++ [[]]).length := by
    have hpos := List.length_pos_iff.2 hne
    rw [List.length_append, List.length_singleton]
    omega
  have hpieces := pieces_endedText h ends
  rw [splitLines, hpieces, if_pos ⟨hmany, List.getLast?_concat⟩, List.dropLast_concat]

theorem splitLines_openText_iff (hne : lines ≠ []) (h : ∀ line ∈ lines, IsLine line) (ends : Nat → LineEnd) :
    splitLines (openText ends lines) = lines ↔ lines.length = 1 ∨ lines.getLast? ≠ some [] := by
  have hpos := List.length_pos_iff.2 hne
  rw [splitLines, pieces_openText hne h ends]
  by_cases hlost : 1 < lines.length ∧ lines.getLast? = some []
  · rw [if_pos hlost]
    constructor
    · intro heq
      have hlength := congrArg List.length heq
      rw [List.length_dropLast] at hlength
      omega
    · rintro (hone | hlast)
      · omega
      · exact absurd hlost.2 hlast
  · rw [if_neg hlost, eq_self, true_iff]
    by_cases hlast : lines.getLast? = some []
    · left
      have hfew : ¬1 < lines.length := fun hmany => hlost ⟨hmany, hlast⟩
      omega
    · exact .inr hlast

/-- The texts that hold these lines and no others. -/
inductive Writes (lines : List Text) : Text → Prop
  | ended (ends : Nat → LineEnd) : Writes lines (endedText ends lines)
  | unended (ends : Nat → LineEnd) (hlast : lines.length = 1 ∨ lines.getLast? ≠ some []) :
      Writes lines (openText ends lines)

theorem Writes.ofText_eq {text : Text} (hw : Writes lines text) (hne : lines ≠ [])
    (h : ∀ line ∈ lines, IsLine line) : ofText text = ⟨lines⟩ := by
  cases hw with
  | ended ends => rw [ofText, splitLines_endedText hne h]
  | unended ends hlast => rw [ofText, (splitLines_openText_iff hne h ends).2 hlast]

/-- Splitting undoes joining for every mixture of endings. So two texts of the same lines are one
source, and its tokens, labels and folds do not tell them apart. -/
theorem splitLines_undoes_endings (hne : lines ≠ []) (h : ∀ line ∈ lines, IsLine line) :
    (∀ ends, splitLines (endedText ends lines) = lines) ∧
      (∀ ends, splitLines (openText ends lines) = lines ↔ lines.length = 1 ∨ lines.getLast? ≠ some []) ∧
      ∀ a b, Writes lines a → Writes lines b →
        ofText a = ofText b ∧
          (∀ (t : Tokenizer) n, t.tokens ((ofText a).line n) = t.tokens ((ofText b).line n)) ∧
          (∀ t, LabelIndex.build t (ofText a) = LabelIndex.build t (ofText b)) ∧
          ∀ rules t, RegionSet.ofSource rules t (ofText a) = RegionSet.ofSource rules t (ofText b) := by
  refine ⟨splitLines_endedText hne h, splitLines_openText_iff hne h, ?_⟩
  intro a b ha hb
  have hsame : ofText a = ofText b := (ha.ofText_eq hne h).trans (hb.ofText_eq hne h).symm
  rw [hsame]
  exact ⟨rfl, fun _ _ => rfl, fun _ => rfl, fun _ _ => rfl⟩

/-- A return inside a line and an empty line, under endings of both kinds. -/
theorem splitLines_undoes_mixedEndings :
    let lines : List Text := ["a\rb".toList, [], "c".toList]
    let mixed : Nat → LineEnd := fun n => if n = 1 then .returnFeed else .feed
    endedText mixed lines = "a\rb\n\r\nc\n".toList ∧ splitLines (endedText mixed lines) = lines ∧
      splitLines (openText mixed lines) = lines ∧
      ofText (endedText mixed lines) = ofText (openText (fun _ => .returnFeed) lines) := by
  intro lines mixed
  have hlines : ∀ line ∈ lines, IsLine line := by decide
  have hlast : lines.length = 1 ∨ lines.getLast? ≠ some [] := by decide
  obtain ⟨hended, hopen, hsame⟩ := splitLines_undoes_endings (List.cons_ne_nil _ _) hlines
  exact ⟨rfl, hended mixed, (hopen mixed).2 hlast, (hsame _ _ (.ended mixed) (.unended _ hlast)).1⟩

/-- Without its ending an empty last line is lost. -/
example : splitLines (openText (fun _ => .feed) ["a".toList, []]) = ["a".toList] := by decide

end Source
end AsmOutline
