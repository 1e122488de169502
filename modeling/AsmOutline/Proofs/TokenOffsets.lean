import AsmOutline.Proofs.TokenOrder

/-! # Reading a line by offsets

The tokens of a line can be read from slices of the line alone, each taken by two byte
offsets: the rest after a word, the word itself, a segment, a fragment of it. A slice fails
when an offset is no boundary or lies past the end. This reading never fails, and it gives
the tokens of the line.
-/
namespace AsmOutline
open Text

namespace Text

theorem width_eq_zero_iff {s : Text} : width s = 0 ↔ s = [] := by
  cases s with
  | nil => simp
  | cons c cs =>
    have hc := c.utf8Size_pos
    simp
    omega

/-- The shorter of two front parts of one text stands at the front of the longer one. -/
theorem exists_between {s t u v : Text} (h : s ++ t = u ++ v) (hw : width s ≤ width u) :
    ∃ m, u = s ++ m ∧ t = m ++ v := by
  rcases List.append_eq_append_iff.1 h with ⟨m, hu, ht⟩ | ⟨m, rfl, hv⟩
  · exact ⟨m, hu, ht⟩
  · have hm : m = [] := by
      apply width_eq_zero_iff.1
      rw [width_append] at hw
      omega
    subst hm
    exact ⟨[], by simp, by simpa using hv.symm⟩

theorem slice?_middle (a b c : Text) : slice? (a ++ (b ++ c)) (width a) (width a + width b) = some b := by
  simp [slice?, dropBytes?_width_append, takeBytes?_width_append]

theorem slice?_rest (a b : Text) : slice? (a ++ b) (width a) (width (a ++ b)) = some b := by
  simpa using slice?_middle a b []

end Text

namespace Conventions

/-- How the first word from an offset on ends, with its span in the line. -/
inductive WordSpan
  | label (span : Span)
  | word (span : Span)
  | nothing
  deriving DecidableEq, Repr

def FirstWord.located (offset : Nat) : FirstWord → WordSpan
  | .label blanks name _ => .label ⟨offset + width blanks, offset + width blanks + width name⟩
  | .word blanks first _ => .word ⟨offset + width blanks, offset + width blanks + width first⟩
  | .nothing => .nothing

def firstWordAt? (rules : Conventions) (line : Text) (offset : Nat) : Option WordSpan := do
  let tail ← slice? line offset (width line)
  let start := offset + width (tail.takeWhile isBlank)
  let body ← slice? line start (width line)
  let stop := start + width (body.takeWhile (!rules.endsWord ·))
  let rest ← slice? line stop (width line)
  match rest with
  | [] => some .nothing
  | c :: _ =>
    if start = stop ∨ c = '"' ∨ rules.isMarker c = true then some .nothing
    else if c = ':' then some (.label ⟨start, stop⟩)
    else if isBlank c then some (.word ⟨start, stop⟩)
    else some .nothing

theorem firstWordAt?_eq (rules : Conventions) (front text : Text) :
    rules.firstWordAt? (front ++ text) (width front) = some ((rules.firstWord text).located (width front)) := by
  have htail := slice?_rest front text
  unfold firstWordAt? firstWord
  simp only [htail, Option.bind_eq_bind, Option.bind_some]
  have htext : text.takeWhile isBlank ++ text.dropWhile isBlank = text := List.takeWhile_append_dropWhile
  generalize text.takeWhile isBlank = blanks at htext ⊢
  generalize text.dropWhile isBlank = body at htext ⊢
  subst htext
  have hbody := slice?_rest (front ++ blanks) body
  rw [List.append_assoc, width_append front blanks] at hbody
  simp only [hbody, Option.bind_some]
  have hword : body.takeWhile (!rules.endsWord ·) ++ body.dropWhile (!rules.endsWord ·) = body :=
    List.takeWhile_append_dropWhile
  generalize body.takeWhile (!rules.endsWord ·) = word at hword ⊢
  generalize body.dropWhile (!rules.endsWord ·) = rest at hword ⊢
  subst hword
  have hrest := slice?_rest (front ++ blanks ++ word) rest
  rw [List.append_assoc, List.append_assoc, width_append (front ++ blanks), width_append front blanks] at hrest
  simp only [hrest, Option.bind_some]
  have hempty : width front + width blanks = width front + width blanks + width word ↔ word = [] := by
    rw [← width_eq_zero_iff]
    omega
  cases rest with
  | nil => rfl
  | cons c after =>
    simp only [hempty, Bool.or_eq_true, List.isEmpty_iff, beq_iff_eq, or_assoc]
    split_ifs <;> rfl

/-- The span of the label of a line, if it has one. -/
def labelAt? (rules : Conventions) (line : Text) : Option (Option Span) := do
  match ← rules.firstWordAt? line 0 with
  | .label span => some (some span)
  | .word span =>
    let first ← slice? line span.start span.stop
    if isExtern first then
      match ← rules.firstWordAt? line span.stop with
      | .label span => some (some span)
      | _ => some none
    else some none
  | .nothing => some none

theorem labelAt?_eq (rules : Conventions) (line : Text) :
    rules.labelAt? line = some (rules.labelSpan? line) := by
  have hfirst : rules.firstWordAt? line 0 = _ := rules.firstWordAt?_eq [] line
  have hspec := rules.firstWord_spec line
  simp only [labelAt?, labelSpan?, labelHead?, hfirst, Option.bind_eq_bind, Option.bind_some]
  cases hw : rules.firstWord line with
  | label blanks name after => simp [FirstWord.located, LabelHead.span]
  | nothing => rfl
  | word blanks first rest =>
    rw [hw] at hspec
    obtain ⟨rfl, _⟩ := hspec
    have hslice := slice?_middle blanks first rest
    have hsecond := rules.firstWordAt?_eq (blanks ++ first) rest
    rw [← List.append_assoc] at hslice
    rw [width_append] at hsecond
    simp only [FirstWord.located, width_nil, Nat.zero_add, hslice, hsecond, Option.bind_some]
    split_ifs
    · cases rules.firstWord rest with
      | label gap name after => simp [LabelHead.span, Nat.add_assoc]
      | word _ _ _ => rfl
      | nothing => rfl
    · rfl

end Conventions

namespace Fragment

/-- The spans between the split characters of a text, also the empty ones. -/
def gaps (start offset : Nat) : Text → List Span
  | [] => [⟨start, offset⟩]
  | c :: cs =>
    let next := offset + c.utf8Size
    if Conventions.isSplit c then ⟨start, offset⟩ :: gaps next next cs else gaps start next cs

def pieces? (offset : Nat) (text : Text) : List Span → Option (List Fragment)
  | [] => some []
  | span :: spans => do
    let piece ← slice? text span.start span.stop
    let later ← pieces? offset text spans
    some (cons (offset + span.start) piece later)

/-- The fragments between two offsets of a line. -/
def between? (line : Text) (start stop : Nat) : Option (List Fragment) := do
  let text ← slice? line start stop
  pieces? start text (gaps 0 0 text)

/-- `run` is what was read since the last split character. -/
theorem pieces?_gaps (offset : Nat) (front run rest : Text) :
    pieces? offset (front ++ (run ++ rest)) (gaps (width front) (width front + width run) rest) =
      some (cons (offset + width front) (run ++ (cut (offset + width front + width run) rest).1)
        (cut (offset + width front + width run) rest).2) := by
  induction rest generalizing front run with
  | nil =>
    have hslice := slice?_middle front run []
    rw [List.append_nil] at hslice
    simp [gaps, pieces?, hslice, cut]
  | cons c cs ih =>
    by_cases hc : Conventions.isSplit c = true
    · have hslice := slice?_middle front run (c :: cs)
      have hnext := ih (front ++ (run ++ [c])) []
      simp at hnext
      simp [gaps, pieces?, hc, hslice, cut, hnext, Nat.add_assoc]
    · have hnext := ih front (run ++ [c])
      simp [Nat.add_assoc] at hnext
      simp [gaps, hc, cut, hnext, Nat.add_assoc]

theorem between?_eq (a text b : Text) :
    between? (a ++ (text ++ b)) (width a) (width a + width text) = some (ofText (width a) text) := by
  have hpieces := pieces?_gaps (width a) [] [] text
  simpa [between?, slice?_middle, ofText] using hpieces

end Fragment

namespace Tokenizer

def segmentBetween? (t : Tokenizer) (line : Text) (start stop : Nat) : Option (List Token) := do
  let fragments ← Fragment.between? line start stop
  some (t.scan (width line) .word fragments)

def tokensByOffsets? (t : Tokenizer) (line : Text) : Option (List Token) := do
  match ← t.rules.labelAt? line with
  | none => t.segmentBetween? line 0 (width line)
  | some span =>
    let front ← t.segmentBetween? line 0 span.start
    if front.any (·.kind.endsLine) then some front
    else
      let name ← slice? line span.start span.stop
      let after ← slice? line (span.stop + 1) (width line)
      let resume := if after.head? = some ':' then span.stop + 2 else span.stop + 1
      let rest ← t.segmentBetween? line resume (width line)
      let label := if name = anonymousLabel then [] else [⟨span.start, span.stop, .labelDef⟩]
      some (front ++ label ++ rest)

theorem segmentBetween?_eq (t : Tokenizer) (a text b : Text) :
    t.segmentBetween? (a ++ (text ++ b)) (width a) (width a + width text) =
      some (t.segment (width (a ++ (text ++ b))) (width a) text) := by
  simp [segmentBetween?, Fragment.between?_eq, segment]

theorem segmentBetween?_rest (t : Tokenizer) (a text : Text) :
    t.segmentBetween? (a ++ text) (width a) (width (a ++ text)) =
      some (t.segment (width (a ++ text)) (width a) text) := by
  simpa using t.segmentBetween?_eq a text []

/-- Where the scan goes on after the colons of a label. -/
theorem segmentBetween?_afterColons (t : Tokenizer) (a after : Text) :
    t.segmentBetween? (a ++ after) (if after.head? = some ':' then width a + 1 else width a)
        (width (a ++ after)) =
      some (t.segment (width (a ++ after)) (afterColons (width a) after).1
        (afterColons (width a) after).2) := by
  rcases afterColons_cases (width a) after with ⟨rest, rfl, h⟩ | ⟨hhead, h⟩
  · have hrest := t.segmentBetween?_rest (a ++ [':']) rest
    simpa [h, utf8Size_colon] using hrest
  · simpa [h, hhead] using t.segmentBetween?_rest a after

/-- No slice fails, and the tokens read are those of the line. -/
theorem tokensByOffsets?_eq (t : Tokenizer) (line : Text) : t.tokensByOffsets? line = some (t.tokens line) := by
  simp only [tokensByOffsets?, Conventions.labelAt?_eq, Conventions.labelSpan?, Option.bind_eq_bind,
    Option.bind_some, tokens]
  cases hh : t.rules.labelHead? line with
  | none => exact t.segmentBetween?_rest [] line
  | some head =>
    obtain ⟨before, name, after⟩ := head
    obtain ⟨rfl, _, _⟩ := Conventions.labelHead?_split hh
    have hfront := t.segmentBetween?_eq [] before (name ++ ':' :: after)
    have hname := slice?_middle before name (':' :: after)
    have hcolon : width (before ++ name ++ [':']) = width before + width name + 1 := by
      simp [utf8Size_colon, Nat.add_assoc]
    have hafter := slice?_rest (before ++ name ++ [':']) after
    have hrest := t.segmentBetween?_afterColons (before ++ name ++ [':']) after
    rw [hcolon] at hafter hrest
    simp only [List.append_assoc, List.nil_append, List.singleton_append, width_nil, Nat.zero_add]
      at hfront hafter hrest
    simp only [List.append_assoc, Option.map_some, LabelHead.span, hfront, hname, hafter, hrest,
      Option.bind_some]
    exact (apply_ite some _ _ _).symm

end Tokenizer
end AsmOutline
