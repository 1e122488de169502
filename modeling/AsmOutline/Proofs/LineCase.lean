import AsmOutline.Fold.Region
import AsmOutline.Proofs.WordCase
import Mathlib.Data.List.Forall2

/-! # Lines without regard to case

Where no marker and no separator is a letter, every cut of a line falls on the same offset
in lower case: the label at the head, the fragments, the text of a token. With the words in
them read in any case, a line has the tokens and the role that it has in lower case, and so
sources that differ in case only have the same regions.
-/
namespace AsmOutline
open Text

namespace Text

theorem dropBytes?_lower (s : Text) (n : Nat) : dropBytes? (lower s) n = (dropBytes? s n).map lower := by
  fun_induction dropBytes? s n with
  | case1 => simp
  | case2 => rfl
  | case3 c cs n hfits ih => rw [lower_cons, dropBytes?, utf8Size_caseless c, if_pos hfits, ih]
  | case4 c cs n hfits => rw [lower_cons, dropBytes?, utf8Size_caseless c, if_neg hfits]; rfl

theorem takeBytes?_lower (s : Text) (n : Nat) : takeBytes? (lower s) n = (takeBytes? s n).map lower := by
  fun_induction takeBytes? s n with
  | case1 => simp
  | case2 => rfl
  | case3 c cs n hfits ih =>
    rw [lower_cons, takeBytes?, utf8Size_caseless c, if_pos hfits, ih, Option.map_map, Option.map_map]
    rfl
  | case4 c cs n hfits => rw [lower_cons, takeBytes?, utf8Size_caseless c, if_neg hfits]; rfl

theorem slice?_lower (s : Text) (start stop : Nat) : slice? (lower s) start stop = (slice? s start stop).map lower := by
  unfold slice?
  by_cases h : start ≤ stop
  · rw [if_pos h, if_pos h, dropBytes?_lower]
    cases dropBytes? s start with
    | none => rfl
    | some rest => exact takeBytes?_lower rest _
  · rw [if_neg h, if_neg h]
    rfl

end Text

theorem Token.text_lower (token : Token) (line : Text) : token.text (lower line) = lower (token.text line) := by
  rw [text, text, slice?_lower]
  cases slice? line token.start token.stop <;> rfl

namespace Conventions

/-- No letter is a marker or a separator in one case only. -/
structure Caseless (rules : Conventions) : Prop where
  isMarker : Text.Caseless rules.isMarker
  isSeparator : Text.Caseless rules.isSeparator

theorem caseless_default : ({} : Conventions).Caseless where
  isMarker := .of_capitals rfl
  isSeparator := .of_capitals rfl

theorem isSplit_caseless : Text.Caseless isSplit := .of_capitals rfl

theorem quote_caseless : Text.Caseless (· == '"') := .of_capitals rfl

theorem colon_caseless : Text.Caseless (· == ':') := .of_capitals rfl

variable {rules : Conventions} (h : rules.Caseless)
include h

theorem Caseless.endsWord : Text.Caseless rules.endsWord :=
  (quote_caseless.or h.isMarker).or h.isSeparator

theorem remarkPos_lower (text : Text) : rules.remarkPos (lower text) = rules.remarkPos text := by
  induction text with
  | nil => rfl
  | cons c cs ih => rw [lower_cons, remarkPos, remarkPos, h.isMarker c, utf8Size_caseless c, ih]

theorem isRemarkOnly_lower (line : Text) : rules.isRemarkOnly (lower line) = rules.isRemarkOnly line := by
  rw [isRemarkOnly, isRemarkOnly, dropWhile_lower _ isBlank_caseless]
  cases line.dropWhile isBlank with
  | nil => rfl
  | cons c cs => exact h.isMarker c

omit h in
def FirstWord.lower : FirstWord → FirstWord
  | .label blanks name after => .label (Text.lower blanks) (Text.lower name) (Text.lower after)
  | .word blanks first rest => .word (Text.lower blanks) (Text.lower first) (Text.lower rest)
  | .nothing => .nothing

theorem firstWord_lower (text : Text) : rules.firstWord (lower text) = (rules.firstWord text).lower := by
  simp only [firstWord, takeWhile_lower _ isBlank_caseless, dropWhile_lower _ isBlank_caseless,
    takeWhile_lower _ h.endsWord.not, dropWhile_lower _ h.endsWord.not]
  generalize (text.dropWhile isBlank).takeWhile (!rules.endsWord ·) = word
  have hempty : (lower word).isEmpty = word.isEmpty := List.isEmpty_map
  cases (text.dropWhile isBlank).dropWhile (!rules.endsWord ·) with
  | nil => rfl
  | cons c after =>
    have hquote : (c.toLower == '"') = (c == '"') := quote_caseless c
    have hcolon : (c.toLower == ':') = (c == ':') := colon_caseless c
    simp only [lower_cons, hempty, hquote, hcolon, h.isMarker c, isBlank_caseless c]
    split_ifs <;> rfl

end Conventions

namespace LabelHead

def lower (head : LabelHead) : LabelHead :=
  ⟨Text.lower head.before, Text.lower head.name, Text.lower head.after⟩

variable (head : LabelHead)

@[simp] theorem lower_before : head.lower.before = Text.lower head.before := rfl

@[simp] theorem lower_name : head.lower.name = Text.lower head.name := rfl

@[simp] theorem lower_after : head.lower.after = Text.lower head.after := rfl

@[simp] theorem span_lower : head.lower.span = head.span := by
  simp [span]

end LabelHead

theorem Conventions.labelHead?_lower {rules : Conventions} (h : rules.Caseless) (line : Text) :
    rules.labelHead? (lower line) = (rules.labelHead? line).map LabelHead.lower := by
  rw [labelHead?, labelHead?, firstWord_lower h]
  cases rules.firstWord line with
  | label blanks name after => rfl
  | nothing => rfl
  | word blanks first rest =>
    have hword : isExtern (lower first) = isExtern first := isOneOf_lower first _
    simp only [FirstWord.lower, hword, firstWord_lower h]
    cases isExtern first with
    | false => rfl
    | true =>
      cases rules.firstWord rest with
      | label gap name after => simp [LabelHead.lower]
      | word _ _ _ => rfl
      | nothing => rfl

namespace Fragment

def lower (fragment : Fragment) : Fragment :=
  ⟨fragment.start, Text.lower fragment.text⟩

theorem cons_lower (start : Nat) (run : Text) (later : List Fragment) :
    cons start (Text.lower run) (later.map lower) = (cons start run later).map lower := by
  cases run <;> rfl

theorem cut_lower (offset : Nat) (text : Text) :
    cut offset (Text.lower text) = (Text.lower (cut offset text).1, (cut offset text).2.map lower) := by
  induction text generalizing offset with
  | nil => rfl
  | cons c cs ih =>
    rw [lower_cons, cut, cut, utf8Size_caseless c, Conventions.isSplit_caseless c, ih]
    by_cases hc : Conventions.isSplit c = true
    · simp only [hc, if_true, cons_lower]
      rfl
    · simp only [hc, Bool.false_eq_true, if_false]
      rfl

theorem ofText_lower (offset : Nat) (text : Text) :
    ofText offset (Text.lower text) = (ofText offset text).map lower := by
  rw [ofText, ofText, cut_lower, cons_lower]

@[simp] theorem token_lower (fragment : Fragment) (kind : Token.Kind) :
    fragment.lower.token kind = fragment.token kind := by
  simp [token, stop, lower]

end Fragment

namespace Tokenizer

variable {t : Tokenizer}

theorem definedBy_lower (fragments : List Fragment) :
    definedBy (fragments.map Fragment.lower) = definedBy fragments := by
  cases fragments with
  | nil => rfl
  | cons next rest => exact isOneOf_lower next.text _

theorem scan_lower (h : t.rules.Caseless) (stop : Nat) (phase : Phase) (fragments : List Fragment) :
    t.scan stop phase (fragments.map Fragment.lower) = t.scan stop phase fragments := by
  induction fragments generalizing phase with
  | nil => rfl
  | cons fragment rest ih =>
    -- each test on the fragment ignores case, so both scans take the same branch
    have hstart : fragment.lower.start = fragment.start := rfl
    have htext : fragment.lower.text = lower fragment.text := rfl
    cases phase <;>
      simp only [List.map_cons, scan, hstart, htext, Fragment.token_lower, Conventions.remarkPos_lower h,
        isOneOf_lower, targetKind_lower, classify_lower, Numeral.read_lower, definedBy_lower, ih]

theorem segment_lower (h : t.rules.Caseless) (stop offset : Nat) (text : Text) :
    t.segment stop offset (lower text) = t.segment stop offset text := by
  rw [segment, segment, Fragment.ofText_lower, scan_lower h]

theorem afterColons_lower (offset : Nat) (after : Text) :
    afterColons offset (lower after) = ((afterColons offset after).1, lower (afterColons offset after).2) := by
  cases after with
  | nil => rfl
  | cons c after =>
    have hcolon : (c.toLower == ':') = (c == ':') := Conventions.colon_caseless c
    by_cases hc : c = ':'
    · subst hc
      rfl
    · have hc' : c.toLower ≠ ':' := by simpa [hc] using hcolon
      simp [afterColons, hc, hc']

theorem labelToken_lower (head : LabelHead) : labelToken head.lower = labelToken head := by
  have hname : lower head.name = anonymousLabel ↔ head.name = anonymousLabel :=
    ⟨eq_of_lower_eq rfl, fun h => by rw [h]; rfl⟩
  simp only [labelToken, LabelHead.span_lower, LabelHead.lower_name, hname]

theorem tokens_lower (h : t.rules.Caseless) (line : Text) : t.tokens (lower line) = t.tokens line := by
  rw [tokens, tokens, Conventions.labelHead?_lower h, width_lower]
  cases t.rules.labelHead? line with
  | none => exact segment_lower h _ _ _
  | some head =>
    simp only [Option.map_some, LabelHead.span_lower, LabelHead.lower_before, LabelHead.lower_after,
      afterColons_lower, labelToken_lower, segment_lower h]

end Tokenizer

namespace FoldRules

variable {rules : FoldRules} {t : Tokenizer}

theorem byDirectives_lower (line : Text) (tokens : List Token) :
    rules.byDirectives (lower line) tokens = rules.byDirectives line tokens := by
  induction tokens with
  | nil => rfl
  | cons token rest ih =>
    simp only [byDirectives, Token.text_lower, Dialect.opens, Dialect.closes, isOneOf_lower, ih]
    rfl

theorem role_lower (h : t.rules.Caseless) (line : Text) : rules.role t (lower line) = rules.role t line := by
  have htags : rules.byTags? (lower line) = rules.byTags? line := by simp only [byTags?, lower_lower]
  rw [role, role, htags, Conventions.isRemarkOnly_lower h, Conventions.remarkPos_lower h,
    Tokenizer.tokens_lower h, byDirectives_lower]

theorem map_role_congr (h : t.rules.Caseless) {lines others : List Text}
    (hs : List.Forall₂ (fun x y => sameLetters x y = true) lines others) :
    lines.map (rules.role t) = others.map (rules.role t) := by
  induction hs with
  | nil => rfl
  | cons hline _ ih =>
    rw [List.map_cons, List.map_cons, ih, ← role_lower h, beq_iff_eq.1 hline, role_lower h]

end FoldRules

namespace Region

/-- Under the default conventions neither the tokens of a line nor the regions of a source
depend on the case in which a letter is written. -/
theorem tokens_and_regions_caseless (table : KeywordTable) :
    let t : Tokenizer := ⟨table, {}⟩
    (∀ a b : Text, sameLetters a b = true → t.tokens a = t.tokens b) ∧
      ∀ (folds : FoldRules) (a b : Source),
        List.Forall₂ (fun x y => sameLetters x y = true) a.lines b.lines →
          ofSource folds t a = ofSource folds t b := by
  intro t
  have h : t.rules.Caseless := Conventions.caseless_default
  constructor
  · intro a b hab
    rw [← Tokenizer.tokens_lower h a, ← Tokenizer.tokens_lower h b, beq_iff_eq.1 hab]
  · intro folds a b hs
    rw [ofSource, ofSource, FoldRules.map_role_congr h hs]

/-- A label, a jump, a register, both forms of hexadecimal numerals, a tag and a block. -/
def spelled : Source :=
  ⟨["Extern foo:near".toList, "JMP Short ebx".toList, "mov 0xFf".toList, "MOV 1fH".toList,
    "; #Region2 x".toList, "p PROC".toList, "p ENDP".toList, "; #ENDREGION2".toList]⟩

def respelled : Source :=
  ⟨["eXTERN FOO:Near".toList, "jmp sHORT EbX".toList, "MoV 0XfF".toList, "mov 1Fh".toList,
    "; #rEGION2 X".toList, "P Proc".toList, "P endp".toList, "; #endRegion2".toList]⟩

theorem tokens_and_regions_of_respelled :
    let table : KeywordTable := .ofEntries [{ name := "JMP".toList, kind := .jump },
      { name := "MOV".toList, kind := .mnemonic }, { name := "PROC".toList, kind := .directive },
      { name := "ENDP".toList, kind := .directive }]
    let t : Tokenizer := ⟨table, {}⟩
    sameLetters (spelled.line 1) (respelled.line 1) = true ∧
      t.tokens (spelled.line 1) = t.tokens (respelled.line 1) ∧
      List.Forall₂ (fun x y => sameLetters x y = true) spelled.lines respelled.lines ∧
      ofSource {} t spelled = ofSource {} t respelled := by
  intro table t
  have hline : sameLetters (spelled.line 1) (respelled.line 1) = true := by decide
  have hlines : List.Forall₂ (fun x y => sameLetters x y = true) spelled.lines respelled.lines := by decide
  obtain ⟨htokens, hregions⟩ := tokens_and_regions_caseless table
  exact ⟨hline, htokens _ _ hline, hlines, hregions {} spelled respelled hlines⟩

end Region
end AsmOutline
