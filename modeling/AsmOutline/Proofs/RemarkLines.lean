import AsmOutline.Proofs.LabelScope
import AsmOutline.Proofs.RemarkBlindness
import AsmOutline.Fold.Rules
import Mathlib.Data.List.TakeWhile

/-! # Lines that are one remark

A remark line starts, after blanks, with a remark marker. Folding reads the marker as it
stands. The tokens come from fragments, and a split character is in no fragment: a marker that
splits is passed over, and what follows it is read as code. For every other marker the line
is a single remark token, so it has no label.
-/
namespace AsmOutline
open Text

namespace Fragment

/-- A split character at the front belongs to no fragment. -/
theorem ofText_cons_split {c : Char} (h : Conventions.isSplit c = true) (offset : Nat) (text : Text) :
    ofText offset (c :: text) = ofText (offset + c.utf8Size) text := by
  simp [ofText, cut, h, cons]

theorem ofText_append_split {front : Text} (h : ∀ c ∈ front, Conventions.isSplit c = true) (offset : Nat)
    (text : Text) : ofText offset (front ++ text) = ofText (offset + width front) text := by
  induction front generalizing offset with
  | nil => rfl
  | cons c front ih =>
    obtain ⟨hc, hfront⟩ := List.forall_mem_cons.1 h
    rw [List.cons_append, ofText_cons_split hc, ih hfront, width_cons, Nat.add_assoc]

/-- Any other character goes to the front of the first run, and the later fragments stay. -/
theorem cut_cons_unsplit {c : Char} (h : Conventions.isSplit c = false) (offset : Nat) (text : Text) :
    cut offset (c :: text) = (c :: (cut (offset + c.utf8Size) text).1, (cut (offset + c.utf8Size) text).2) := by
  simp [cut, h]

theorem ofText_cons_unsplit {c : Char} (h : Conventions.isSplit c = false) (offset : Nat) (text : Text) :
    ofText offset (c :: text) = ⟨offset, c :: (cut (offset + c.utf8Size) text).1⟩ ::
      (cut (offset + c.utf8Size) text).2 := by
  simp [ofText, cut_cons_unsplit h, cons]

end Fragment

namespace Conventions

variable {rules : Conventions} {blanks rest : Text} {marker : Char}

theorem isSplit_of_isBlank {c : Char} (h : isBlank c = true) : isSplit c = true := by
  simp [isSplit, h]

theorem exists_of_isRemarkOnly {line : Text} (h : rules.isRemarkOnly line = true) :
    ∃ blanks marker rest, line = blanks ++ marker :: rest ∧ (∀ c ∈ blanks, isBlank c = true) ∧
      rules.isMarker marker = true := by
  have hline : line.takeWhile isBlank ++ line.dropWhile isBlank = line := List.takeWhile_append_dropWhile
  unfold isRemarkOnly at h
  cases hd : line.dropWhile isBlank with
  | nil => simp [hd] at h
  | cons marker rest =>
    rw [hd] at h hline
    exact ⟨line.takeWhile isBlank, marker, rest, hline.symm, List.all_eq_true.1 List.all_takeWhile, h⟩

theorem remarkPos_of_blanks (hb : ∀ c ∈ blanks, isBlank c = true) (hm : rules.isMarker marker = true) :
    rules.remarkPos (blanks ++ marker :: rest) = some (width blanks) := by
  apply remarkPos_eq_some_iff.2
  refine ⟨blanks, marker, rest, rfl, ?_, hm, rfl⟩
  intro c hc
  by_contra hmarker
  have hblank := isBlank_of_isMarker (Bool.not_eq_false _ ▸ hmarker)
  simp [hb c hc] at hblank

theorem labelHead?_of_blanks (hb : ∀ c ∈ blanks, isBlank c = true) (hm : rules.isMarker marker = true) :
    rules.labelHead? (blanks ++ marker :: rest) = none := by
  have hbody : blanks.dropWhile isBlank = [] := List.dropWhile_eq_nil_iff.2 hb
  have hnone : rules.labelHead? blanks = none := by simp [labelHead?, firstWord, hbody]
  rw [labelHead?_append hm, hnone]
  rfl

end Conventions

namespace Tokenizer

variable {t : Tokenizer} {blanks rest : Text} {marker : Char}

theorem tokens_of_blanks (hb : ∀ c ∈ blanks, isBlank c = true) (hm : t.rules.isMarker marker = true) :
    t.tokens (blanks ++ marker :: rest) =
      t.segment (width (blanks ++ marker :: rest)) (width blanks) (marker :: rest) := by
  have hsplit : ∀ c ∈ blanks, Conventions.isSplit c = true :=
    fun c hc => Conventions.isSplit_of_isBlank (hb c hc)
  rw [tokens, Conventions.labelHead?_of_blanks hb hm]
  simp only [segment, Fragment.ofText_append_split hsplit, Nat.zero_add]

theorem segment_unsplit (hm : t.rules.isMarker marker = true) (hs : Conventions.isSplit marker = false)
    (stop offset : Nat) : t.segment stop offset (marker :: rest) = [⟨offset, stop, .remark⟩] := by
  simp [segment, Fragment.ofText_cons_unsplit hs, scan, Conventions.remarkPos, hm]

/-- A marker that splits is passed over, so no token starts at it. -/
theorem segment_split (hs : Conventions.isSplit marker = true) {stop offset : Nat}
    (hstop : offset + width (marker :: rest) ≤ stop) :
    t.segment stop offset (marker :: rest) ≠ [⟨offset, stop, .remark⟩] := by
  intro hone
  have hsize := marker.utf8Size_pos
  have hpast : t.segment stop offset (marker :: rest) = t.segment stop (offset + marker.utf8Size) rest := by
    simp only [segment, Fragment.ofText_cons_split hs]
  have horder : Span.InOrder (offset + marker.utf8Size) stop
      ((t.segment stop (offset + marker.utf8Size) rest).map Token.span) := by
    apply segment_inOrder
    rw [width_cons] at hstop
    omega
  rw [← hpast, hone] at horder
  have hstart : offset + marker.utf8Size ≤ offset := horder.1
  omega

theorem tokens_remark_iff (hb : ∀ c ∈ blanks, isBlank c = true) (hm : t.rules.isMarker marker = true) :
    t.tokens (blanks ++ marker :: rest) = [⟨width blanks, width (blanks ++ marker :: rest), .remark⟩] ↔
      Conventions.isSplit marker = false := by
  rw [tokens_of_blanks hb hm]
  constructor
  · intro hone
    by_contra hs
    exact segment_split (Bool.not_eq_false _ ▸ hs) (Nat.le_of_eq (width_append _ _).symm) hone
  · intro hs
    exact segment_unsplit hm hs _ _

end Tokenizer

theorem LabelRecord.scan_of_remark {t : Tokenizer} {line : Text} {start stop : Nat}
    (h : t.tokens line = [⟨start, stop, .remark⟩]) (parent : Option Text) : scan t parent line = {} := by
  simp [scan, Tokenizer.labelTokens, h, Token.Kind.isLabel, ofTokens]

theorem FoldRules.role_of_isRemarkOnly {rules : FoldRules} {t : Tokenizer} {line : Text} {pos : Nat}
    (h : t.rules.isRemarkOnly line = true) (hp : t.rules.remarkPos line = some pos)
    (htag : rules.byTags? line = none) : rules.role t line = .remark pos := by
  simp [role, htag, h, hp]

namespace LabelIndex

/-- Where a remark line has no tag, folding counts it as a remark from its marker on. Its
tokens are that one remark exactly if the marker is no split character, and then the line
adds no label to the index. -/
theorem remark_line_iff_unsplit (t : Tokenizer) (source : Source) (n : Nat)
    (h : t.rules.isRemarkOnly (source.line n) = true) :
    ∃ marker pos, (source.line n).find? (!isBlank ·) = some marker ∧
      t.rules.remarkPos (source.line n) = some pos ∧
      (∀ folds : FoldRules, folds.byTags? (source.line n) = none → folds.role t (source.line n) = .remark pos) ∧
      (t.tokens (source.line n) = [⟨pos, width (source.line n), .remark⟩] ↔
        Conventions.isSplit marker = false) ∧
      (Conventions.isSplit marker = false → (build t source).records[n]? = none) := by
  obtain ⟨blanks, marker, rest, hline, hb, hm⟩ := Conventions.exists_of_isRemarkOnly h
  have hpos : t.rules.remarkPos (source.line n) = some (width blanks) := by
    rw [hline, Conventions.remarkPos_of_blanks hb hm]
  have htokens : t.tokens (source.line n) = [⟨width blanks, width (source.line n), .remark⟩] ↔
      Conventions.isSplit marker = false := by
    rw [hline]
    exact Tokenizer.tokens_remark_iff hb hm
  refine ⟨marker, width blanks, ?_, hpos, ?_, htokens, ?_⟩
  · rw [hline, List.find?_append, List.find?_eq_none.2 (by simpa using hb)]
    simp [Conventions.isBlank_of_isMarker hm]
  · intro folds htag
    exact FoldRules.role_of_isRemarkOnly h hpos htag
  · intro hs
    rw [build_records, recordAt, LabelRecord.scan_of_remark (htokens.2 hs)]
    rfl

/-- Folding takes both lines for remarks, and still the second one defines a label. -/
def starred : Source :=
  ⟨["; foo PROC".toList, "* foo PROC".toList]⟩

theorem remark_line_of_starred :
    let t : Tokenizer := ⟨.empty, .ofMarkers [';', '*']⟩
    t.rules.isRemarkOnly (starred.line 0) = true ∧ (build t starred).records[0]? = none := by
  intro t
  have h : t.rules.isRemarkOnly (starred.line 0) = true := by decide
  obtain ⟨marker, _, hfirst, _, _, _, hindex⟩ := remark_line_iff_unsplit t starred 0 h
  obtain rfl : ';' = marker := Option.some.inj hfirst
  exact ⟨h, hindex (by decide)⟩

theorem starred_remark_defines_label :
    let t : Tokenizer := ⟨.empty, .ofMarkers [';', '*']⟩
    t.rules.isRemarkOnly (starred.line 1) = true ∧ t.rules.remarkPos (starred.line 1) = some 0 ∧
      ({} : FoldRules).role t (starred.line 1) = .remark 0 ∧
      t.tokens (starred.line 1) = [⟨2, 5, .labelDef⟩, ⟨6, 10, .unknown⟩] ∧
      (build t starred).hasLabel "foo".toList = true := by
  refine ⟨by decide, by decide, by decide, by decide, by decide⟩

end LabelIndex
end AsmOutline
