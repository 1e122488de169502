import AsmOutline.Label.Index
import AsmOutline.Proofs.TokenShape
import Mathlib.Data.List.Forall2

/-! # Labels do not depend on remarks

Two lines that agree up to their first remark marker have the same tokens but for the end
of the remark. Every part that looks ahead stops at the marker: the search for the label at
the head of the line, the cut into fragments, and the look at the next fragment, which with
a marker in it is no defining word. So sources that differ in their remarks only have the
same label index.
-/
namespace AsmOutline
open Text

namespace Text

variable {p : Char → Bool} {c : Char}

theorem takeWhile_append_stop (h : p c = false) (front rest : Text) :
    (front ++ c :: rest).takeWhile p = front.takeWhile p := by
  induction front with
  | nil => simp [h]
  | cons d front ih => by_cases hd : p d = true <;> simp [hd, ih]

theorem dropWhile_append_stop (h : p c = false) (front rest : Text) :
    (front ++ c :: rest).dropWhile p = front.dropWhile p ++ c :: rest := by
  induction front with
  | nil => simp [h]
  | cons d front ih => by_cases hd : p d = true <;> simp [hd, ih]

theorem isOneOf_eq_false {words : List String} {s : Text} (hc : c ∈ s)
    (h : ∀ word ∈ words, c.toLower ∉ lower word.toList) : isOneOf words s = false := by
  apply List.any_eq_false.2
  intro word hword hsame
  have hlower : lower word.toList = lower s := by simpa [sameLetters] using hsame
  apply h word hword
  rw [hlower]
  exact List.mem_map_of_mem hc

end Text

namespace Conventions

variable {rules : Conventions} {marker : Char}

/-- A marker that is no colon, cuts no fragment and stands in no defining word. -/
structure Hides (rules : Conventions) (marker : Char) : Prop where
  isMarker : rules.isMarker marker = true
  unsplit : isSplit marker = false
  ne_colon : marker ≠ ':'
  undefining : ∀ word ∈ Tokenizer.definingWords, marker.toLower ∉ lower word.toList

theorem hides_of_default (h : rules.markers = ['#', ';']) (hm : rules.isMarker marker = true) :
    rules.Hides marker := by
  have hcases : marker = '#' ∨ marker = ';' := by simpa [isMarker, h] using hm
  rcases hcases with rfl | rfl
  · exact ⟨hm, by decide, by decide, by decide⟩
  · exact ⟨hm, by decide, by decide, by decide⟩

theorem isBlank_of_isMarker (h : rules.isMarker marker = true) : isBlank marker = false := by
  have hblank := List.any_eq_false.1 rules.markers_nonblank marker (List.contains_iff_mem.1 h)
  simpa using hblank

def FirstWord.extend (tail : Text) : FirstWord → FirstWord
  | .label blanks name after => .label blanks name (after ++ tail)
  | .word blanks first rest => .word blanks first (rest ++ tail)
  | .nothing => .nothing

/-- The first word is found before the marker or not at all. -/
theorem firstWord_append (h : rules.isMarker marker = true) (front tail : Text) :
    rules.firstWord (front ++ marker :: tail) = (rules.firstWord front).extend (marker :: tail) := by
  have hblank := isBlank_of_isMarker h
  have hends : (!rules.endsWord marker) = false := by simp [endsWord, h]
  simp only [firstWord, takeWhile_append_stop hblank, dropWhile_append_stop hblank,
    takeWhile_append_stop (p := (!rules.endsWord ·)) hends,
    dropWhile_append_stop (p := (!rules.endsWord ·)) hends]
  cases (front.dropWhile isBlank).dropWhile (!rules.endsWord ·) with
  | nil => simp [h, FirstWord.extend]
  | cons c after =>
    dsimp only [List.cons_append]
    split_ifs <;> rfl

theorem labelHead?_append (h : rules.isMarker marker = true) (front tail : Text) :
    rules.labelHead? (front ++ marker :: tail) =
      (rules.labelHead? front).map fun head => { head with after := head.after ++ marker :: tail } := by
  unfold labelHead?
  rw [firstWord_append h]
  cases rules.firstWord front with
  | label blanks name after => rfl
  | nothing => rfl
  | word blanks first rest =>
    simp only [FirstWord.extend, firstWord_append h]
    split_ifs
    · cases rules.firstWord rest <;> rfl
    · rfl

end Conventions

namespace Fragment

variable {rules : Conventions} {fragments others : List Fragment}

/-- Fragments that agree up to one with a marker in it, and in this one up to the marker. -/
inductive Alike (rules : Conventions) : List Fragment → List Fragment → Prop
  | nil : Alike rules [] []
  | cons (fragment : Fragment) {rest rest' : List Fragment} (h : Alike rules rest rest') :
      Alike rules (fragment :: rest) (fragment :: rest')
  | marked (start : Nat) {front : Text} {marker : Char} (tail tail' : Text) (later later' : List Fragment)
      (hfront : ∀ c ∈ front, rules.isMarker c = false) (hmarker : rules.Hides marker) :
      Alike rules (⟨start, front ++ marker :: tail⟩ :: later) (⟨start, front ++ marker :: tail'⟩ :: later')

namespace Alike

theorem refl (rules : Conventions) (fragments : List Fragment) : Alike rules fragments fragments := by
  induction fragments with
  | nil => exact .nil
  | cons fragment rest ih => exact .cons fragment ih

theorem run (start : Nat) (text : Text) (h : Alike rules fragments others) :
    Alike rules (Fragment.cons start text fragments) (Fragment.cons start text others) := by
  cases text with
  | nil => exact h
  | cons c cs => exact .cons _ h

/-- `front` was read since the last split character. -/
theorem cut {marker : Char} (hm : rules.Hides marker) (start offset : Nat) (front text tail tail' : Text)
    (hfront : ∀ c ∈ front, rules.isMarker c = false) (htext : ∀ c ∈ text, rules.isMarker c = false) :
    let parts := Fragment.cut offset (text ++ marker :: tail)
    let parts' := Fragment.cut offset (text ++ marker :: tail')
    Alike rules (Fragment.cons start (front ++ parts.1) parts.2)
      (Fragment.cons start (front ++ parts'.1) parts'.2) := by
  induction text generalizing start offset front with
  | nil =>
    have hcons (run : Text) (later : List Fragment) :
        Fragment.cons start (front ++ marker :: run) later = ⟨start, front ++ marker :: run⟩ :: later := by
      cases front <;> rfl
    simp only [List.nil_append, Fragment.cut, hm.unsplit, Bool.false_eq_true, if_false, hcons]
    exact .marked start _ _ _ _ hfront hm
  | cons c cs ih =>
    obtain ⟨hc, hcs⟩ := List.forall_mem_cons.1 htext
    by_cases hsplit : Conventions.isSplit c = true
    · have hnext := ih (offset + c.utf8Size) (offset + c.utf8Size) [] (by simp) hcs
      simpa [Fragment.cut, hsplit] using hnext.run start front
    · have hrun : ∀ d ∈ front ++ [c], rules.isMarker d = false := by
        simpa [or_imp, forall_and, hc] using hfront
      simpa [Fragment.cut, hsplit] using ih start (offset + c.utf8Size) (front ++ [c]) hrun hcs

theorem ofText {marker : Char} (hm : rules.Hides marker) (offset : Nat) (text tail tail' : Text)
    (htext : ∀ c ∈ text, rules.isMarker c = false) :
    Alike rules (Fragment.ofText offset (text ++ marker :: tail))
      (Fragment.ofText offset (text ++ marker :: tail')) :=
  cut hm offset offset [] text tail tail' (by simp) htext

theorem definedBy_eq (h : Alike rules fragments others) :
    Tokenizer.definedBy fragments = Tokenizer.definedBy others := by
  cases h with
  | nil => rfl
  | cons fragment _ => rfl
  | marked start tail tail' later later' _ hmarker =>
    simp only [Tokenizer.definedBy]
    rw [isOneOf_eq_false (by simp) hmarker.undefining, isOneOf_eq_false (by simp) hmarker.undefining]

end Alike
end Fragment

namespace Token

/-- The token in a line that ends at `stop` and is the same before its remark. -/
def endingAt (stop : Nat) (token : Token) : Token :=
  if token.kind = .remark then { token with stop := stop } else token

variable {stop : Nat} {token : Token}

@[simp] theorem endingAt_kind : (token.endingAt stop).kind = token.kind := by
  unfold endingAt
  split_ifs <;> rfl

@[simp] theorem endingAt_start : (token.endingAt stop).start = token.start := by
  unfold endingAt
  split_ifs <;> rfl

theorem endingAt_of_ne (h : token.kind ≠ .remark) : token.endingAt stop = token :=
  if_neg h

theorem filter_map_endingAt {p : Token.Kind → Bool} (hp : p .remark = false) (stop : Nat)
    (tokens : List Token) :
    (tokens.map (endingAt stop)).filter (p ·.kind) = tokens.filter (p ·.kind) := by
  induction tokens with
  | nil => rfl
  | cons token rest ih =>
    by_cases hk : token.kind = .remark
    · simp [hk, hp, ih]
    · simp only [List.map_cons, endingAt_of_ne hk, List.filter_cons, ih]

/-- A token is read in the same way from a line that goes on. -/
theorem Fits.text_append {rules : Conventions} {line : Text} (h : token.Fits rules line) (more : Text) :
    token.text (line ++ more) = token.text line := by
  obtain ⟨front, piece, rest, rfl, hstart, hstop, _⟩ := h
  simp [text, hstart, hstop, slice?_middle]

end Token

namespace Tokenizer

variable {t : Tokenizer} {marker : Char}

/-- Where the line ends shows in the remark alone. -/
theorem scan_alike {fragments others : List Fragment} (h : Fragment.Alike t.rules fragments others)
    (stop stop' : Nat) (phase : Phase) :
    t.scan stop phase fragments = (t.scan stop' phase others).map (Token.endingAt stop) := by
  induction h generalizing phase with
  | nil => simp [scan]
  | @marked start front marker tail tail' later later' hfront hmarker =>
    have hpos (rest : Text) : t.rules.remarkPos (front ++ marker :: rest) = some (width front) :=
      Conventions.remarkPos_eq_some_iff.2 ⟨front, marker, rest, rfl, hfront, hmarker.isMarker, rfl⟩
    simp [scan, hpos, Token.endingAt]
  | @cons fragment rest rest' h ih =>
    -- of the rests only `definedBy` is looked at, and it is the same for both
    rcases scan_cons_cases t phase fragment rest with
      ⟨marker, _, hcut⟩ | ⟨_, hcut | ⟨next, hcut⟩ | ⟨kind, next, hk, hcut⟩⟩
    · simp [hcut, Token.endingAt]
    · simp [hcut, Token.endingAt, Fragment.token]
    · rw [hcut _ _ rfl, hcut _ _ h.definedBy_eq.symm, ih]
    · have hkind : (fragment.token kind).kind ≠ .remark := by
        rintro rfl
        cases hk
      rw [hcut _ _ rfl, hcut _ _ h.definedBy_eq.symm, ih, List.map_cons, Token.endingAt_of_ne hkind]

theorem afterColons_append (h : marker ≠ ':') (offset : Nat) (after tail : Text) :
    afterColons offset (after ++ marker :: tail) =
      ((afterColons offset after).1, (afterColons offset after).2 ++ marker :: tail) := by
  cases after with
  | nil => simp [afterColons, h]
  | cons c after => by_cases hc : c = ':' <;> simp [afterColons, hc]

theorem afterColons_subset (offset : Nat) (after : Text) : (afterColons offset after).2 ⊆ after := by
  rcases afterColons_cases offset after with ⟨rest, rfl, h⟩ | ⟨_, h⟩ <;> simp [h]

theorem map_endingAt_labelToken (stop : Nat) (head : LabelHead) :
    (labelToken head).map (Token.endingAt stop) = labelToken head := by
  unfold labelToken
  split_ifs <;> simp [Token.endingAt]

/-- What follows the marker moves the end of the remark and nothing else. -/
theorem tokens_append (hm : t.rules.Hides marker) (front tail tail' : Text)
    (hfront : ∀ c ∈ front, t.rules.isMarker c = false) :
    t.tokens (front ++ marker :: tail) =
      (t.tokens (front ++ marker :: tail')).map (Token.endingAt (width (front ++ marker :: tail))) := by
  simp only [tokens, Conventions.labelHead?_append hm.isMarker]
  generalize width (front ++ marker :: tail) = stop
  generalize width (front ++ marker :: tail') = stop'
  cases hh : t.rules.labelHead? front with
  | none => exact scan_alike (.ofText hm 0 front tail tail' hfront) _ _ _
  | some head =>
    -- the label stands before the marker, so both lines are cut at the same places
    obtain ⟨hline, _, _⟩ := Conventions.labelHead?_split hh
    have hbefore := scan_alike (.refl t.rules (Fragment.ofText 0 head.before)) stop stop' .word
    have hafter : ∀ c ∈ (afterColons (head.span.stop + 1) head.after).2, t.rules.isMarker c = false := by
      intro c hc
      apply hfront
      rw [hline]
      simp [afterColons_subset _ _ hc]
    have hrest (offset : Nat) := scan_alike (.ofText hm offset _ tail tail' hafter) stop stop' .word
    have hspan (after : Text) : LabelHead.span { head with after := after } = head.span := rfl
    have hlabel (after : Text) : labelToken { head with after := after } = labelToken head := rfl
    simp only [Option.map_some, hspan, hlabel, afterColons_append hm.ne_colon, segment, hbefore, hrest,
      List.any_map, Function.comp_def, Token.endingAt_kind]
    split_ifs
    · rfl
    · simp only [List.map_append, map_endingAt_labelToken]

def plainTokens (t : Tokenizer) (line : Text) : List Token :=
  (t.tokens line).filter (·.kind ≠ .remark)

def remarkStarts (t : Tokenizer) (line : Text) : List Nat :=
  ((t.tokens line).filter (·.kind = .remark)).map Token.start

variable {front : Text} (hm : t.rules.Hides marker) (hfront : ∀ c ∈ front, t.rules.isMarker c = false)
include hm hfront

theorem plainTokens_append (tail tail' : Text) :
    t.plainTokens (front ++ marker :: tail) = t.plainTokens (front ++ marker :: tail') := by
  rw [plainTokens, tokens_append hm front tail tail' hfront]
  exact Token.filter_map_endingAt (p := (· ≠ .remark)) (by simp) _ _

theorem remarkStarts_append (tail tail' : Text) :
    t.remarkStarts (front ++ marker :: tail) = t.remarkStarts (front ++ marker :: tail') := by
  rw [remarkStarts, tokens_append hm front tail tail' hfront]
  simp [remarkStarts, List.filter_map, Function.comp_def]

theorem labelTokens_append (tail tail' : Text) :
    t.labelTokens (front ++ marker :: tail) = t.labelTokens (front ++ marker :: tail') := by
  rw [labelTokens, tokens_append hm front tail tail' hfront]
  exact Token.filter_map_endingAt (p := Token.Kind.isLabel) rfl _ _

end Tokenizer

theorem LabelRecord.ofTokens_congr {a b : Text} {tokens : List Token} (parent : Option Text)
    (h : ∀ token ∈ tokens, token.text a = token.text b) :
    ofTokens a parent tokens = ofTokens b parent tokens := by
  induction tokens generalizing parent with
  | nil => rfl
  | cons token rest ih =>
    obtain ⟨hfirst, hrest⟩ := List.forall_mem_cons.1 h
    simp only [ofTokens, hfirst, ih _ hrest]

/-- The lines have the same labels, whatever the parent at their start. -/
def LabelRecord.Same (t : Tokenizer) (a b : Text) : Prop :=
  ∀ parent, scan t parent a = scan t parent b

/-- The labels of a line are those of the line cut after its first marker. -/
theorem LabelRecord.scan_append {t : Tokenizer} {marker : Char} {front : Text} (hm : t.rules.Hides marker)
    (hfront : ∀ c ∈ front, t.rules.isMarker c = false) (parent : Option Text) (tail : Text) :
    scan t parent (front ++ marker :: tail) = scan t parent (front ++ [marker]) := by
  rw [scan, Tokenizer.labelTokens_append hm hfront tail []]
  apply ofTokens_congr
  intro token hmem
  have hfits := t.tokens_fit _ token (List.mem_of_mem_filter hmem)
  simpa using hfits.text_append tail

namespace Conventions

/-- The lines are equal, or they agree up to their first marker and in this marker. -/
def AgreeUpToRemark (rules : Conventions) (a b : Text) : Prop :=
  a = b ∨ ∃ front marker tail tail', (∀ c ∈ front, rules.isMarker c = false) ∧ rules.isMarker marker = true ∧
    a = front ++ marker :: tail ∧ b = front ++ marker :: tail'

variable {t : Tokenizer} {a b : Text}

theorem AgreeUpToRemark.tokens (h : t.rules.AgreeUpToRemark a b) (hd : t.rules.markers = ['#', ';']) :
    t.plainTokens a = t.plainTokens b ∧ t.remarkStarts a = t.remarkStarts b := by
  rcases h with rfl | ⟨front, marker, tail, tail', hfront, hmarker, rfl, rfl⟩
  · exact ⟨rfl, rfl⟩
  · have hm := hides_of_default hd hmarker
    exact ⟨Tokenizer.plainTokens_append hm hfront tail tail',
      Tokenizer.remarkStarts_append hm hfront tail tail'⟩

theorem AgreeUpToRemark.record (h : t.rules.AgreeUpToRemark a b) (hd : t.rules.markers = ['#', ';']) :
    LabelRecord.Same t a b := by
  intro parent
  rcases h with rfl | ⟨front, marker, tail, tail', hfront, hmarker, rfl, rfl⟩
  · rfl
  · have hm := hides_of_default hd hmarker
    rw [LabelRecord.scan_append hm hfront parent tail, LabelRecord.scan_append hm hfront parent tail']

end Conventions

namespace LabelIndex

theorem insertFrom_congr {t : Tokenizer} {lines others : List Text}
    (h : List.Forall₂ (LabelRecord.Same t) lines others) (parent : Option Text) (n : Nat) (index : LabelIndex) :
    insertFrom t parent n lines index = insertFrom t parent n others index := by
  induction h generalizing parent n index with
  | nil => rfl
  | cons hline _ ih => simp only [insertFrom, hline parent, ih]

theorem build_congr {t : Tokenizer} {a b : Source} (h : List.Forall₂ (LabelRecord.Same t) a.lines b.lines) :
    build t a = build t b := by
  simp only [build, Source.lineCount, h.length_eq, insertFrom_congr h]

/-- Under the default markers what stands in remarks changes no other token and no label. -/
theorem build_blind_to_remarks (table : KeywordTable) (separators : List Char) (a b : Source)
    (h : List.Forall₂ (({} : Conventions).addSeparators separators).AgreeUpToRemark a.lines b.lines) :
    let t : Tokenizer := ⟨table, ({} : Conventions).addSeparators separators⟩
    List.Forall₂ (fun x y => t.plainTokens x = t.plainTokens y ∧ t.remarkStarts x = t.remarkStarts y)
      a.lines b.lines ∧ build t a = build t b := by
  intro t
  constructor
  · apply h.imp
    intro x y hxy
    exact hxy.tokens (t := t) rfl
  · apply build_congr
    apply h.imp
    intro x y hxy
    exact hxy.record (t := t) rfl

/-- Remarks that hold a colon, a jump and a defining word, behind names of all kinds. -/
def remarked : Source :=
  ⟨["start: jmp .loop ; end: jmp out".toList, "EXTRN far:near #x".toList, "name ;PROC".toList, ".loop:".toList]⟩

def reworded : Source :=
  ⟨["start: jmp .loop ;".toList, "EXTRN far:near # y: PROC".toList, "name ;".toList, ".loop:".toList]⟩

theorem build_blind_to_rewording :
    let rules : Conventions := ({} : Conventions).addSeparators ['/']
    let t : Tokenizer := ⟨.ofEntries [{ name := "JMP".toList, kind := .jump }], rules⟩
    List.Forall₂ rules.AgreeUpToRemark remarked.lines reworded.lines ∧
      List.Forall₂ (fun x y => t.plainTokens x = t.plainTokens y ∧ t.remarkStarts x = t.remarkStarts y)
        remarked.lines reworded.lines ∧
      build t remarked = build t reworded := by
  intro rules t
  have h : List.Forall₂ rules.AgreeUpToRemark remarked.lines reworded.lines := by
    refine .cons (.inr ?_) (.cons (.inr ?_) (.cons (.inr ?_) (.cons (.inl rfl) .nil)))
    · exact ⟨"start: jmp .loop ".toList, ';', " end: jmp out".toList, [],
        Conventions.remarkPos_eq_none_iff.1 rfl, by decide, by decide, by decide⟩
    · exact ⟨"EXTRN far:near ".toList, '#', "x".toList, " y: PROC".toList,
        Conventions.remarkPos_eq_none_iff.1 rfl, by decide, by decide, by decide⟩
    · exact ⟨"name ".toList, ';', "PROC".toList, [],
        Conventions.remarkPos_eq_none_iff.1 rfl, by decide, by decide, by decide⟩
  exact ⟨h, build_blind_to_remarks t.table ['/'] remarked reworded h⟩

end LabelIndex
end AsmOutline
