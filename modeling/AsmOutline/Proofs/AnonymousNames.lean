import AsmOutline.Proofs.SkippedText

/-! # Anonymous names

The name `@@` and the targets `$`, `@B` and `@F` stand for no label of their own. A label token
comes about on one of three paths: before a colon, before a defining word, and behind a jump. The
first path leaves out `@@`, the last one the three targets, and the second one nothing. So an
anonymous name is a label token exactly where it is written on a path that does not leave it out.
-/
namespace AsmOutline
open Text

namespace Tokenizer

variable {t : Tokenizer} {line name : Text} {head : LabelHead} {stop : Nat} {phase : Phase}
  {fragment : Fragment} {fragments earlier later rest : List Fragment} {token : Token}

def isAnonymous (name : Text) : Bool :=
  name == anonymousLabel || isOneOf anonymousTargets name

/-! ## What the scan expects -/

/-- What comes behind a fragment: any word, the target of a jump, or nothing when the line ends. -/
def expect (t : Tokenizer) (phase : Phase) (fragment : Fragment) : Option Phase :=
  match t.rules.remarkPos fragment.text with
  | some _ => none
  | none =>
    match phase with
    | .target => if isOneOf jumpQualifiers fragment.text then some .target else some .word
    | .word =>
      match t.classify fragment.text with
      | some kind => if kind = .jump then some .target else some .word
      | none => if (Numeral.read fragment.text).isSome then none else some .word

/-- A word that the fragment behind it makes a label. -/
structure IsDefined (t : Tokenizer) (fragment : Fragment) (later : List Fragment) : Prop where
  unmarked : ∀ c ∈ fragment.text, t.rules.isMarker c = false
  unknown : t.classify fragment.text = none
  wordlike : Numeral.read fragment.text = none
  defined : definedBy later = true

theorem isDefined_iff : t.IsDefined fragment later ↔ t.rules.remarkPos fragment.text = none ∧
    t.classify fragment.text = none ∧ Numeral.read fragment.text = none ∧ definedBy later = true := by
  rw [Conventions.remarkPos_eq_none_iff]
  exact ⟨fun h => ⟨h.unmarked, h.unknown, h.wordlike, h.defined⟩, fun h => ⟨h.1, h.2.1, h.2.2.1, h.2.2.2⟩⟩

theorem isTarget_iff : t.IsTarget fragment ↔ t.rules.remarkPos fragment.text = none ∧
    isOneOf jumpQualifiers fragment.text = false ∧ isOneOf anonymousTargets fragment.text = false ∧
    t.classify fragment.text ≠ some .register := by
  rw [Conventions.remarkPos_eq_none_iff]
  exact ⟨fun h => ⟨h.unmarked, h.unqualified, h.named, h.unregistered⟩,
    fun h => ⟨h.1, h.2.1, h.2.2.1, h.2.2.2⟩⟩

/-- The label token that the scan makes of a fragment. -/
def Labels (t : Tokenizer) (phase : Phase) (fragment : Fragment) (later : List Fragment) (token : Token) : Prop :=
  match phase with
  | .word => t.IsDefined fragment later ∧ token = fragment.token .labelDef
  | .target => t.IsTarget fragment ∧ token = fragment.token .labelUse

theorem mem_scan_cons_iff (hk : token.kind.isLabel = true) :
    token ∈ t.scan stop phase (fragment :: rest) ↔ t.Labels phase fragment rest token ∨
      ∃ next, t.expect phase fragment = some next ∧ token ∈ t.scan stop next rest := by
  have hother (kind : Token.Kind) (hkind : kind.isLabel = false) (start stop : Nat) :
      token ≠ ⟨start, stop, kind⟩ := by
    rintro rfl
    rw [hkind] at hk
    cases hk
  have hkeyword (kind : Keyword.Kind) := hother (.keyword kind) rfl
  cases hm : t.rules.remarkPos fragment.text with
  | some marker => cases phase <;> simp [scan, expect, Labels, isDefined_iff, isTarget_iff, hm, hother .remark rfl]
  | none =>
    cases phase with
    | target =>
      by_cases hq : isOneOf jumpQualifiers fragment.text = true
      · simp [scan, expect, Labels, isTarget_iff, hm, hq, Fragment.token, hkeyword]
      · by_cases ha : isOneOf anonymousTargets fragment.text = true
        · simp [scan, expect, Labels, isTarget_iff, hm, hq, ha]
        · by_cases hr : t.classify fragment.text = some .register
          · simp [scan, expect, Labels, isTarget_iff, hm, hq, ha, hr, targetKind, Fragment.token, hkeyword]
          · simp [scan, expect, Labels, isTarget_iff, hm, hq, ha, hr, targetKind, Fragment.token]
    | word =>
      cases hc : t.classify fragment.text with
      | some kind =>
        by_cases hj : kind = .jump
        · subst hj
          simp [scan, expect, Labels, isDefined_iff, hm, hc, Fragment.token, hkeyword]
        · simp [scan, expect, Labels, isDefined_iff, hm, hc, hj, Fragment.token, hkeyword]
      | none =>
        cases hn : Numeral.read fragment.text with
        | some _ => simp [scan, expect, Labels, isDefined_iff, hm, hc, hn, Fragment.token, hother .constant rfl]
        | none =>
          by_cases hd : definedBy rest = true
          · simp [scan, expect, Labels, isDefined_iff, hm, hc, hn, hd, Fragment.token]
          · by_cases he : t.table.isEmpty = true
            · simp [scan, expect, Labels, isDefined_iff, hm, hc, hn, hd, he, Fragment.token, hother .unknown rfl]
            · simp [scan, expect, Labels, isDefined_iff, hm, hc, hn, hd, he]

/-- A label token comes from a fragment that the scan reaches while it expects a word or a target. -/
theorem mem_scan_iff (hk : token.kind.isLabel = true) : token ∈ t.scan stop phase fragments ↔
    ∃ earlier fragment later next, fragments = earlier ++ fragment :: later ∧
      earlier.foldlM t.expect phase = some next ∧ t.Labels next fragment later token := by
  induction fragments generalizing phase with
  | nil => simp [scan]
  | cons first rest ih =>
    rw [mem_scan_cons_iff hk]
    constructor
    · rintro (hlabels | ⟨next, hnext, hmem⟩)
      · exact ⟨[], first, rest, phase, rfl, rfl, hlabels⟩
      · obtain ⟨earlier, fragment, later, last, rfl, hlast, hlabels⟩ := ih.1 hmem
        refine ⟨first :: earlier, fragment, later, last, rfl, ?_, hlabels⟩
        rw [List.foldlM_cons, hnext]
        exact hlast
    · rintro ⟨earlier, fragment, later, last, hsplit, hlast, hlabels⟩
      cases earlier with
      | nil =>
        obtain ⟨rfl, rfl⟩ := List.cons.inj hsplit
        cases hlast
        exact .inl hlabels
      | cons other earlier =>
        obtain ⟨rfl, rfl⟩ := List.cons.inj hsplit
        rw [List.foldlM_cons] at hlast
        obtain ⟨next, hnext, hlast⟩ := Option.bind_eq_some_iff.1 hlast
        exact .inr ⟨next, hnext, ih.2 ⟨earlier, fragment, later, last, rfl, hlast, hlabels⟩⟩

/-! ## The three paths -/

/-- How a label token of a line comes about, with the name it stands for. -/
inductive LabelPath (t : Tokenizer) (line : Text) : Token → Text → Prop
  | colon {head : LabelHead} (hh : t.rules.labelHead? line = some head) (hname : head.name ≠ anonymousLabel) :
    LabelPath t line ⟨head.span.start, head.span.stop, .labelDef⟩ head.name
  | defined {earlier later : List Fragment} {fragment : Fragment}
    (hs : earlier ++ fragment :: later ∈ t.segments line) (he : earlier.foldlM t.expect .word = some .word)
    (hd : t.IsDefined fragment later) : LabelPath t line (fragment.token .labelDef) fragment.text
  | target {earlier later : List Fragment} {fragment : Fragment}
    (hs : earlier ++ fragment :: later ∈ t.segments line) (he : earlier.foldlM t.expect .word = some .target)
    (ht : t.IsTarget fragment) : LabelPath t line (fragment.token .labelUse) fragment.text

theorem segments_of_labelHead? (h : t.rules.labelHead? line = some head) : t.segments line =
    [Fragment.ofText 0 head.before, Fragment.ofText (width head.lead) head.rest] := by
  simp only [segments, h, LabelHead.afterColons_eq]

theorem mem_tokens_iff : token ∈ t.tokens line ↔
    (∃ fragments ∈ t.segments line, token ∈ t.scan (width line) .word fragments) ∨
      ∃ head, t.rules.labelHead? line = some head ∧ token ∈ labelToken head := by
  cases hh : t.rules.labelHead? line with
  | none => simp [tokens, segments, segment, hh]
  | some head =>
    rw [tokens_of_labelHead? hh, segments_of_labelHead? hh, List.mem_append, List.mem_append]
    simp only [segment, List.mem_cons, List.not_mem_nil, or_false, exists_eq_or_imp, exists_eq_left,
      Option.some.injEq, exists_eq_left']
    exact or_right_comm

theorem mem_labelTokens_iff : token ∈ t.labelTokens line ↔ ∃ name, t.LabelPath line token name := by
  rw [labelTokens, List.mem_filter, mem_tokens_iff]
  constructor
  · rintro ⟨⟨fragments, hs, hmem⟩ | ⟨head, hh, hmem⟩, hk⟩
    · obtain ⟨earlier, fragment, later, next, rfl, he, hlabels⟩ := (mem_scan_iff hk).1 hmem
      cases next with
      | word =>
        obtain ⟨hd, rfl⟩ := hlabels
        exact ⟨_, .defined hs he hd⟩
      | target =>
        obtain ⟨ht, rfl⟩ := hlabels
        exact ⟨_, .target hs he ht⟩
    · obtain ⟨hname, rfl⟩ := mem_labelToken.1 hmem
      exact ⟨_, .colon hh hname⟩
  · rintro ⟨name, hpath⟩
    cases hpath with
    | colon hh hname => exact ⟨.inr ⟨_, hh, mem_labelToken.2 ⟨hname, rfl⟩⟩, rfl⟩
    | defined hs he hd =>
      exact ⟨.inl ⟨_, hs, (mem_scan_iff rfl).2 ⟨_, _, _, .word, rfl, he, hd, rfl⟩⟩, rfl⟩
    | target hs he ht =>
      exact ⟨.inl ⟨_, hs, (mem_scan_iff rfl).2 ⟨_, _, _, .target, rfl, he, ht, rfl⟩⟩, rfl⟩

theorem standsIn_of_segments (hs : fragments ∈ t.segments line) :
    ∀ fragment ∈ fragments, fragment.StandsIn line := by
  cases hh : t.rules.labelHead? line with
  | none =>
    simp only [segments, hh, List.mem_singleton] at hs
    subst hs
    exact Fragment.standsIn_ofText [] line [] (by simp)
  | some head =>
    obtain ⟨hparts, _, _⟩ := Conventions.labelHead?_split hh
    have hbehind := LabelHead.lead_append_rest hh
    simp only [segments_of_labelHead? hh, List.mem_cons, List.not_mem_nil, or_false] at hs
    rcases hs with rfl | rfl
    · exact Fragment.standsIn_ofText [] head.before (head.name ++ ':' :: head.after) (by simpa using hparts)
    · exact Fragment.standsIn_ofText head.lead head.rest [] (by simpa using hbehind.symm)

theorem text_of_segments (hs : earlier ++ fragment :: later ∈ t.segments line) (kind : Token.Kind) :
    (fragment.token kind).text line = fragment.text := by
  obtain ⟨⟨front, rest, hline, hstart⟩, _⟩ := standsIn_of_segments hs fragment (by simp)
  simp [Token.text, Fragment.token, Fragment.stop, hstart, hline, slice?_middle]

theorem LabelPath.text_eq (h : t.LabelPath line token name) : token.text line = name := by
  cases h with
  | colon hh _ =>
    obtain ⟨hline, _, _⟩ := Conventions.labelHead?_split hh
    rw [List.append_assoc] at hline
    simp [Token.text, LabelHead.span, hline, slice?_middle]
  | defined hs _ _ => exact text_of_segments hs _
  | target hs _ _ => exact text_of_segments hs _

theorem isAnonymous_eq_false_iff :
    isAnonymous name = false ↔ name ≠ anonymousLabel ∧ isOneOf anonymousTargets name = false := by
  simp [isAnonymous]

theorem isOneOf_anonymousLabel : isOneOf anonymousTargets anonymousLabel = false := by decide

/-- The name before a colon is never the anonymous label, and a use is never an anonymous target. No
label token at all is anonymous exactly if the name before the colon is no anonymous target, no word
that a defining word makes a label is anonymous, and no target of a jump is the anonymous label. -/
theorem labelTokens_anonymous_iff (t : Tokenizer) (line : Text) :
    (∀ head, t.rules.labelHead? line = some head → head.name = anonymousLabel →
      ∀ token ∈ t.labelTokens line, token.span ≠ head.span) ∧
    (∀ token ∈ t.labelTokens line, token.kind = .labelUse →
      isOneOf anonymousTargets (token.text line) = false) ∧
    ((∀ token ∈ t.labelTokens line, isAnonymous (token.text line) = false) ↔
      (∀ head, t.rules.labelHead? line = some head → isOneOf anonymousTargets head.name = false) ∧
      ∀ earlier fragment later, earlier ++ fragment :: later ∈ t.segments line →
        (earlier.foldlM t.expect .word = some .word → t.IsDefined fragment later →
          isAnonymous fragment.text = false) ∧
        (earlier.foldlM t.expect .word = some .target → t.IsTarget fragment →
          fragment.text ≠ anonymousLabel)) := by
  refine ⟨?_, ?_, ?_, ?_⟩
  · -- the name is passed over, and what is passed over lies in no token
    intro head hh hname token hmem hspan
    obtain ⟨hne, _⟩ := (Conventions.labelHead?_split hh).2
    have hpos : head.span.start < head.span.stop := Nat.lt_add_of_pos_right (width_pos hne)
    have hgap := t.tokens_apart_skipped line head.span ((mem_skipped hh).2 (.inl ⟨hname, rfl⟩)) token
      (List.mem_of_mem_filter hmem)
    have hstart : token.start = head.span.start := congrArg Span.start hspan
    have hstop : token.stop = head.span.stop := congrArg Span.stop hspan
    omega
  · intro token hmem hk
    obtain ⟨name, hpath⟩ := mem_labelTokens_iff.1 hmem
    rw [hpath.text_eq]
    cases hpath with
    | colon _ _ => cases hk
    | defined _ _ _ => cases hk
    | target _ _ ht => exact ht.named
  · intro h
    have hnamed {token : Token} {name : Text} (hpath : t.LabelPath line token name) :
        isAnonymous name = false := by
      rw [← hpath.text_eq]
      exact h token (mem_labelTokens_iff.2 ⟨name, hpath⟩)
    refine ⟨fun head hh => ?_, fun earlier fragment later hs => ⟨fun he hd => ?_, fun he ht => ?_⟩⟩
    · by_cases hname : head.name = anonymousLabel
      · rw [hname, isOneOf_anonymousLabel]
      · exact (isAnonymous_eq_false_iff.1 (hnamed (.colon hh hname))).2
    · exact hnamed (.defined hs he hd)
    · exact (isAnonymous_eq_false_iff.1 (hnamed (.target hs he ht))).1
  · rintro ⟨hcolon, hsegments⟩ token hmem
    obtain ⟨name, hpath⟩ := mem_labelTokens_iff.1 hmem
    rw [hpath.text_eq]
    cases hpath with
    | colon hh hname => exact isAnonymous_eq_false_iff.2 ⟨hname, hcolon _ hh⟩
    | defined hs he hd => exact (hsegments _ _ _ hs).1 he hd
    | target hs he ht => exact isAnonymous_eq_false_iff.2 ⟨(hsegments _ _ _ hs).2 he ht, ht.named⟩

def jumpWords : KeywordTable :=
  .ofEntries [{ name := "JMP".toList, kind := .jump }, { name := "PROC".toList, kind := .directive }]

/-- On each of the three paths an anonymous name is taken for a label. -/
theorem anonymous_names_tracked :
    let t : Tokenizer := ⟨jumpWords, {}⟩
    let labels (line : Text) := (t.labelTokens line).map fun token => (token.kind, token.text line)
    labels "$:".toList = [(.labelDef, "$".toList)] ∧ labels "@@ PROC".toList = [(.labelDef, "@@".toList)] ∧
      labels "jmp @@".toList = [(.labelUse, "@@".toList)] ∧ isAnonymous "$".toList = true ∧
      isAnonymous "@@".toList = true := by
  refine ⟨by decide, by decide +kernel, by decide +kernel, by decide, by decide⟩

end Tokenizer
end AsmOutline
