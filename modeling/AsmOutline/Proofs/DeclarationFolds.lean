import AsmOutline.Fold.Region
import AsmOutline.Proofs.JumpTargets
import AsmOutline.Proofs.LabelGrammar
import AsmOutline.Proofs.RemarkLines

/-! # Declarations and folds

A declaration `EXTRN name:type` without a tag acts on the folds through its type alone: the
declaring word opens and closes nothing, and the name is no directive. Where the type holds no
directive that opens or closes, the line may be left empty and no region changes. But the type
is read as any other code, so `EXTRN name:PROC` opens a region like the head of a procedure.
-/
namespace AsmOutline
open Text

namespace FoldRules

variable {rules : FoldRules} {word line : Text}

theorem find?_eq_none_iff (h : word ≠ []) : find? word line = none ↔ ¬word <:+: line := by
  induction line with
  | nil => simp [find?, h]
  | cons c cs ih =>
    rw [List.infix_cons_iff, ← List.isPrefixOf_iff_prefix]
    by_cases hp : word.isPrefixOf (c :: cs) = true
    · simp [find?, hp]
    · simp [find?, hp, ih]

theorem tagRole?_eq_none_iff (isBegin : Bool) :
    tagRole? isBegin word line = none ↔ (word ≠ [] → ¬word <:+: line) := by
  unfold tagRole?
  by_cases hw : word = []
  · simp [hw]
  · simp [hw, find?_eq_none_iff]

/-- Neither tag stands in the line, in any letter case. -/
def Untagged (rules : FoldRules) (line : Text) : Prop :=
  ∀ tag ∈ [rules.beginTag, rules.endTag], tag ≠ [] → ¬lower tag <:+: lower line

theorem byTags?_eq_none_iff : rules.byTags? line = none ↔ rules.Untagged line := by
  have hlower (tag : Text) : lower tag ≠ [] ↔ tag ≠ [] := by simp [lower]
  unfold byTags? Untagged
  dsimp only
  split_ifs
  · simp [tagRole?_eq_none_iff, hlower]
  · simp [tagRole?_eq_none_iff, hlower, and_comm]

/-- No directive behind the offset opens or closes a region. -/
def PlainAfter (rules : FoldRules) (t : Tokenizer) (line : Text) (offset : Nat) : Prop :=
  ∀ token ∈ t.tokens line, offset < token.start → token.kind = .keyword .directive →
    rules.dialect.opens (token.text line) = false ∧ rules.dialect.closes (token.text line) = false

instance (rules : FoldRules) (t : Tokenizer) (line : Text) (offset : Nat) :
    Decidable (rules.PlainAfter t line offset) :=
  List.decidableBAll _ _

theorem byDirectives_eq_plain_iff {tokens : List Token} : rules.byDirectives line tokens = .plain ↔
    ∀ token ∈ tokens, token.kind = .keyword .directive →
      rules.dialect.opens (token.text line) = false ∧ rules.dialect.closes (token.text line) = false := by
  induction tokens with
  | nil => simp [byDirectives]
  | cons token tokens ih =>
    unfold byDirectives
    dsimp only
    split_ifs with hk ho hc
    · simp [ih, hk]
    · simp_all
    · simp_all
    · simp_all

theorem role_nil (rules : FoldRules) (t : Tokenizer) : rules.role t [] = .plain := by
  have htags : rules.byTags? [] = none := by
    rw [byTags?_eq_none_iff]
    intro tag _ hne hinfix
    exact hne (by simpa [lower] using hinfix)
  have htokens : t.tokens [] = [] := rfl
  rw [role, htags, htokens]
  rfl

end FoldRules

theorem Fragment.ofText_word {word gap : Text} (hne : word ≠ []) (hw : ∀ c ∈ word, Conventions.isSplit c = false)
    (hg : ∀ c ∈ gap, Conventions.isSplit c = true) (offset : Nat) :
    ofText offset (word ++ gap) = [⟨offset, word⟩] := by
  have hgap (offset : Nat) : cut offset gap = ([], []) := by
    cases gap with
    | nil => rfl
    | cons c cs =>
      obtain ⟨hc, hcs⟩ := List.forall_mem_cons.1 hg
      have hnone := ofText_append_split hcs (offset + c.utf8Size) []
      rw [List.append_nil] at hnone
      rw [cut, if_pos hc]
      exact congrArg (([] : Text), ·) hnone
  have hcut : cut offset (word ++ gap) = (word, []) := by
    clear hne
    induction word generalizing offset with
    | nil => exact hgap offset
    | cons c cs ih =>
      obtain ⟨hc, hcs⟩ := List.forall_mem_cons.1 hw
      rw [List.cons_append, cut, ih hcs]
      simp [hc]
  obtain ⟨c, cs, rfl⟩ := List.exists_cons_of_ne_nil hne
  rw [ofText, hcut]
  rfl

namespace Conventions

variable {rules : Conventions} {line word : Text}

theorem isRemarkOnly_of_labelHead? {head : LabelHead} (h : rules.labelHead? line = some head) :
    rules.isRemarkOnly line = false := by
  by_contra hr
  obtain ⟨blanks, marker, rest, rfl, hb, hm⟩ := exists_of_isRemarkOnly (Bool.not_eq_false _ ▸ hr)
  rw [labelHead?_of_blanks hb hm] at h
  cases h

theorem Declares.plain (h : rules.Declares word) (dialect : Dialect) :
    dialect.opens word = false ∧ dialect.closes word = false := by
  unfold Dialect.opens Dialect.closes isOneOf sameLetters
  rcases h.spelled with hs | hs <;> rw [hs] <;> cases dialect <;> decide

end Conventions

namespace LabelForm

/-- The declaring word. -/
def word? : LabelForm → Option Text
  | plain _ _ _ => none
  | declared _ word _ _ _ => some word

variable {rules : Conventions} {form : LabelForm} {word : Text}

theorem declares_of_word? (hv : form.Valid rules) (hd : form.word? = some word) : rules.Declares word := by
  cases form with
  | plain _ _ _ => cases hd
  | declared _ _ _ _ _ =>
    cases hd
    exact hv.2.1

/-- What stands before the name, without its blanks. -/
def fragments : LabelForm → List Fragment
  | plain _ _ _ => []
  | declared blanks word _ _ _ => [⟨width blanks, word⟩]

theorem ofText_before (hv : form.Valid rules) : Fragment.ofText 0 form.head.before = form.fragments := by
  cases form with
  | plain blanks name after =>
    have hfront : ∀ c ∈ blanks, Conventions.isSplit c = true :=
      fun c hc => Conventions.isSplit_of_isBlank (hv.1 c hc)
    have hnone := Fragment.ofText_append_split hfront 0 []
    rw [List.append_nil] at hnone
    exact hnone
  | declared blanks word gap name after =>
    obtain ⟨hblanks, hword, _, hgap, _⟩ := hv
    obtain ⟨hne, hends⟩ := Conventions.isName_iff.1 (Conventions.declares_iff.1 hword).2
    have hfront : ∀ c ∈ blanks, Conventions.isSplit c = true :=
      fun c hc => Conventions.isSplit_of_isBlank (hblanks c hc)
    have hback : ∀ c ∈ gap, Conventions.isSplit c = true :=
      fun c hc => Conventions.isSplit_of_isBlank (hgap c hc)
    have hinside : ∀ c ∈ word, Conventions.isSplit c = false :=
      fun c hc => (Conventions.isWord_of_endsWord hends c hc).1
    rw [head, List.append_assoc, Fragment.ofText_append_split hfront, Fragment.ofText_word hne hinside hback,
      Nat.zero_add]
    rfl

/-- Before the name there is one fragment, the declaring word. -/
theorem text_of_before {fragment : Fragment} (hv : form.Valid rules) (hd : form.word? = some word)
    (h : fragment ∈ Fragment.ofText 0 form.head.before) (kind : Token.Kind) :
    (fragment.token kind).text form.text = word := by
  rw [ofText_before hv] at h
  cases form with
  | plain _ _ _ => cases hd
  | declared blanks first gap name after =>
    cases hd
    obtain rfl := List.mem_singleton.1 h
    simp [Token.text, Fragment.token, Fragment.stop, text, slice?_middle]

end LabelForm

namespace Tokenizer

variable {t : Tokenizer} {form : LabelForm} {word : Text} {token : Token}

/-- A directive of a declaration is the declaring word or belongs to the type. -/
theorem directive_of_declared (hv : form.Valid t.rules) (hd : form.word? = some word)
    (hm : t.rules.isMarker ':' = false) (h : token ∈ t.tokens form.text)
    (hk : token.kind = .keyword .directive) :
    token.text form.text = word ∨ form.head.span.stop < token.start := by
  have hfront : token ∈ t.segment (width form.text) 0 form.head.before → token.text form.text = word := by
    intro hmem
    obtain ⟨fragment, hf, htoken⟩ := exists_fragment_of_mem_scan hmem (by simp [hk])
    rw [htoken]
    exact LabelForm.text_of_before hv hd hf _
  rw [tokens, LabelForm.labelHead?_text hv hm] at h
  dsimp only at h
  split_ifs at h
  · exact .inl (hfront h)
  · rcases List.mem_append.1 h with h | h
    · rcases List.mem_append.1 h with h | h
      · exact .inl (hfront h)
      · have hlabel := labelToken_kind _ token h
        rw [hk] at hlabel
        cases hlabel
    · obtain ⟨fragment, hf, htoken⟩ := exists_fragment_of_mem_scan h (by simp [hk])
      rw [htoken]
      exact .inr (start_of_afterColons hf)

end Tokenizer

theorem FoldRules.role_of_labelHead? {rules : FoldRules} {t : Tokenizer} {line : Text} {head : LabelHead}
    (hh : t.rules.labelHead? line = some head) (hu : rules.Untagged line) :
    rules.role t line = rules.byDirectives line (t.tokens line) := by
  rw [role, byTags?_eq_none_iff.2 hu, Conventions.isRemarkOnly_of_labelHead? hh]
  rfl

namespace Region

variable {rules : FoldRules} {t : Tokenizer} {source : Source} {n : Nat}

/-- A line that does nothing may be left empty. -/
theorem ofSource_setLine_of_plain (h : rules.role t (source.line n) = .plain) :
    ofSource rules t (source.setLine n []) = ofSource rules t source := by
  have hroles : (source.lines.set n []).map (rules.role t) = source.lines.map (rules.role t) := by
    by_cases hn : n < source.lines.length
    · have hline : source.line n = source.lines[n] := by simp [Source.line, hn]
      rw [List.map_set, FoldRules.role_nil, ← h, hline, ← List.map_set, List.set_getElem_self]
    · rw [List.set_eq_of_length_le (Nat.le_of_not_lt hn)]
  rw [ofSource, ofSource, Source.setLine, hroles]

/-- Where a line declares a name and has no tag, it may be left empty if no directive of the type
opens or closes a region. Only then does the line do nothing. -/
theorem ofSource_setLine_declaration (rules : FoldRules) (t : Tokenizer) (source : Source) (n : Nat)
    (form : LabelForm) (hv : form.Valid t.rules) (htext : form.text = source.line n)
    (hd : form.word?.isSome = true) (hs : (t.rules.labelSpan? (source.line n)).isSome = true)
    (hu : rules.Untagged (source.line n)) :
    (rules.PlainAfter t (source.line n) form.head.span.stop →
      ofSource rules t (source.setLine n []) = ofSource rules t source) ∧
    (rules.role t (source.line n) = .plain ↔ rules.PlainAfter t (source.line n) form.head.span.stop) := by
  obtain ⟨word, hword⟩ := Option.isSome_iff_exists.1 hd
  obtain ⟨head, hhead⟩ := Option.isSome_iff_exists.1 (Option.isSome_map.symm.trans hs)
  obtain ⟨hm, _⟩ := Conventions.exists_form_of_labelHead? hhead
  have hrole : rules.role t (source.line n) = .plain ↔
      rules.PlainAfter t (source.line n) form.head.span.stop := by
    rw [FoldRules.role_of_labelHead? hhead hu, FoldRules.byDirectives_eq_plain_iff]
    constructor
    · exact fun hplain token hmem _ => hplain token hmem
    · intro htype token hmem hk
      rw [← htext] at hmem
      rcases Tokenizer.directive_of_declared hv hword hm hmem hk with hfirst | hlater
      · rw [← htext, hfirst]
        exact (LabelForm.declares_of_word? hv hword).plain rules.dialect
      · exact htype token (htext ▸ hmem) hlater hk
  exact ⟨fun htype => ofSource_setLine_of_plain (hrole.2 htype), hrole⟩

def blockWords : KeywordTable :=
  .ofEntries [{ name := "SEGMENT".toList, kind := .directive }, { name := "ENDS".toList, kind := .directive },
    { name := "PROC".toList, kind := .directive }, { name := "ENDP".toList, kind := .directive },
    { name := "EXTRN".toList, kind := .directive }, { name := "NEAR".toList, kind := .misc }]

/-- A procedure in a segment, with a declaration of the given type on the second line. -/
def declaring (type : String) : Source :=
  ⟨["_TEXT SEGMENT".toList, "EXTRN printf:".toList ++ type.toList, "main PROC".toList, "main ENDP".toList,
    "_TEXT ENDS".toList]⟩

def printfForm (type : String) : LabelForm :=
  .declared [] "EXTRN".toList [' '] "printf".toList type.toList

theorem ofSource_without_nearDeclaration :
    let t : Tokenizer := ⟨blockWords, {}⟩
    (printfForm "NEAR").text = (declaring "NEAR").line 1 ∧
      ({} : FoldRules).PlainAfter t ((declaring "NEAR").line 1) 12 ∧
      ofSource {} t ((declaring "NEAR").setLine 1 []) = ofSource {} t (declaring "NEAR") ∧
      ofSource {} t (declaring "NEAR") = [⟨1, 0, 6, 13, 4⟩, ⟨2, 2, 5, 9, 3⟩] := by
  intro t
  have htext : (printfForm "NEAR").text = (declaring "NEAR").line 1 := rfl
  have hplain : ({} : FoldRules).PlainAfter t ((declaring "NEAR").line 1) 12 := by decide +kernel
  have hlaw := ofSource_setLine_declaration {} t (declaring "NEAR") 1 (printfForm "NEAR")
    (by decide) htext rfl (by decide) (FoldRules.byTags?_eq_none_iff.1 (by decide))
  exact ⟨htext, hplain, hlaw.1 hplain, by decide +kernel⟩

/-- With the type `PROC` the declaration opens a region, the end of the segment closes it, and
the segment has none. -/
theorem procDeclaration_takes_segment :
    let t : Tokenizer := ⟨blockWords, {}⟩
    (printfForm "PROC").Valid t.rules ∧ (printfForm "PROC").text = (declaring "PROC").line 1 ∧
      t.rules.labelSpan? ((declaring "PROC").line 1) = some ⟨6, 12⟩ ∧
      ({} : FoldRules).Untagged ((declaring "PROC").line 1) ∧
      ofSource {} t (declaring "PROC") = [⟨2, 1, 13, 17, 4⟩, ⟨3, 2, 5, 9, 3⟩] ∧
      ofSource {} t ((declaring "PROC").setLine 1 []) = [⟨1, 0, 6, 13, 4⟩, ⟨2, 2, 5, 9, 3⟩] := by
  refine ⟨by decide, rfl, by decide, FoldRules.byTags?_eq_none_iff.1 (by decide), ?_, ?_⟩
  · decide +kernel
  · decide +kernel

end Region
end AsmOutline
