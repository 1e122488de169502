import AsmOutline.Proofs.SkippedText

/-! # Text without keywords

With an empty keyword table a line keeps its text. Each character that cuts no fragment and is not
passed over lies in exactly one token, up to the end of the first number.
-/
namespace AsmOutline
open Text

/-- A boundary behind the start of a character does not lie inside it. -/
theorem Text.IsBoundary.char_le {front rest : Text} {c : Char} {n : Nat}
    (h : IsBoundary (front ++ c :: rest) n) (hlt : width front < n) : width front + c.utf8Size ≤ n := by
  obtain ⟨other, more, htext, rfl⟩ := h
  obtain ⟨middle, rfl, hmiddle⟩ := exists_between htext (Nat.le_of_lt hlt)
  cases middle with
  | nil => simp at hlt
  | cons d middle =>
    obtain ⟨rfl, _⟩ := List.cons.inj hmiddle
    rw [width_append, width_cons]
    omega

namespace Token.Fits

variable {token : Token} {rules : Conventions} {line front rest : Text} {c : Char}

theorem stop_of_holds (h : token.Fits rules line) (hline : line = front ++ c :: rest)
    (hh : token.span.Holds (width front)) : width front + c.utf8Size ≤ token.stop := by
  have hstop := h.boundaries.2
  rw [hline] at hstop
  exact hstop.char_le hh.2

/-- A token that meets a character holds its start, since no token starts inside it. -/
theorem holds_of_meets (h : token.Fits rules line) (hline : line = front ++ c :: rest)
    (hm : token.meets ⟨width front, width front + c.utf8Size⟩ = true) : token.span.Holds (width front) := by
  have hstart := h.boundaries.1
  rw [hline] at hstart
  simp only [Token.meets, Bool.and_eq_true, decide_eq_true_eq] at hm
  refine ⟨?_, hm.2⟩
  by_contra hlt
  have hle := hstart.char_le (Nat.lt_of_not_le hlt)
  omega

end Token.Fits

namespace Fragment

variable {c : Char} {offset : Nat}

theorem mem_of_mem_cons {run : Text} {later : List Fragment} {fragment : Fragment}
    (h : fragment ∈ cons offset run later) : fragment = ⟨offset, run⟩ ∨ fragment ∈ later := by
  cases run with
  | nil => exact .inr h
  | cons _ _ => exact List.mem_cons.1 h

/-- A character that cuts no fragment is in one. -/
theorem exists_holds (hc : Conventions.isSplit c = false) (offset : Nat) (front rest : Text) :
    ∃ fragment ∈ ofText offset (front ++ c :: rest), fragment.span.Holds (offset + width front) := by
  induction front generalizing offset with
  | nil =>
    have hsize := c.utf8Size_pos
    rw [List.nil_append, ofText_cons_unsplit hc]
    refine ⟨_, .head _, Nat.le_refl _, ?_⟩
    simp only [span, stop, width_nil, width_cons]
    omega
  | cons d front ih =>
    obtain ⟨fragment, hmem, hholds⟩ := ih (offset + d.utf8Size)
    rw [Nat.add_assoc] at hholds
    by_cases hd : Conventions.isSplit d = true
    · rw [List.cons_append, ofText_cons_split hd]
      exact ⟨fragment, hmem, hholds⟩
    · rw [List.cons_append, ofText_cons_unsplit (Bool.not_eq_true _ ▸ hd)]
      rcases mem_of_mem_cons hmem with rfl | hlater
      · refine ⟨_, .head _, Nat.le_add_right _ _, ?_⟩
        simpa [span, stop, Nat.add_assoc] using hholds.2
      · exact ⟨fragment, .tail _ hlater, hholds⟩

end Fragment

namespace Tokenizer

variable {t : Tokenizer} {line : Text} {head : LabelHead} {lo hi stop pos : Nat} {fragments : List Fragment}

/-! ## Scanning without keywords -/

theorem classify_of_isEmpty (ht : t.table.isEmpty = true) (word : Text) : t.classify word = none := by
  have hnone : t.table.entries = ∅ := Std.ExtTreeMap.isEmpty_iff.1 ht
  have hkind : t.table.kind? word = none := by simp [KeywordTable.kind?, KeywordTable.get?, hnone]
  simp [classify, hkind, ht]

/-- Without keywords each fragment gives a token, and no jump waits for a target. -/
theorem scan_cons_of_isEmpty (ht : t.table.isEmpty = true) (stop : Nat) (fragment : Fragment)
    (rest : List Fragment) :
    (∃ marker, t.rules.remarkPos fragment.text = some marker ∧
      t.scan stop .word (fragment :: rest) = [⟨fragment.start + marker, stop, .remark⟩]) ∨
    t.rules.remarkPos fragment.text = none ∧
      (t.scan stop .word (fragment :: rest) = [fragment.token .constant] ∨
      ∃ kind, (kind = .labelDef ∨ kind = .unknown) ∧
        t.scan stop .word (fragment :: rest) = fragment.token kind :: t.scan stop .word rest) := by
  have hc := classify_of_isEmpty ht fragment.text
  cases hm : t.rules.remarkPos fragment.text with
  | some marker => exact .inl ⟨marker, rfl, by simp [scan, hm]⟩
  | none =>
    refine .inr ⟨rfl, ?_⟩
    by_cases hn : (Numeral.read fragment.text).isSome = true
    · exact .inl (by simp [scan, hm, hc, hn])
    · by_cases hd : definedBy rest = true
      · exact .inr ⟨.labelDef, .inl rfl, by simp [scan, hm, hc, hn, hd]⟩
      · exact .inr ⟨.unknown, .inr rfl, by simp [scan, hm, hc, hn, hd, ht]⟩

/-- The kinds of tokens that need no keywords. -/
def plainKinds : List Token.Kind := [.labelDef, .constant, .remark, .unknown]

theorem scan_plainKinds (ht : t.table.isEmpty = true) (stop : Nat) (fragments : List Fragment) :
    ∀ token ∈ t.scan stop .word fragments, token.kind ∈ plainKinds := by
  induction fragments with
  | nil => simp [scan]
  | cons fragment rest ih =>
    rcases scan_cons_of_isEmpty ht stop fragment rest with
      ⟨marker, _, hcut⟩ | ⟨_, hcut | ⟨kind, hkind, hcut⟩⟩
    · simp [hcut, plainKinds]
    · simp [hcut, plainKinds, Fragment.token]
    · rw [hcut]
      refine List.forall_mem_cons.2 ⟨?_, ih⟩
      rcases hkind with rfl | rfl <;> simp [plainKinds, Fragment.token]

theorem tokens_plainKinds (ht : t.table.isEmpty = true) (line : Text) :
    ∀ token ∈ t.tokens line, token.kind ∈ plainKinds := by
  cases hh : t.rules.labelHead? line with
  | none =>
    simp only [tokens, hh]
    exact scan_plainKinds ht _ _
  | some head =>
    rw [tokens_of_labelHead? hh]
    refine List.forall_mem_append.2 ⟨List.forall_mem_append.2 ⟨scan_plainKinds ht _ _, ?_⟩, scan_plainKinds ht _ _⟩
    intro token hlabel
    rw [labelToken_kind head token hlabel]
    exact .head _

/-- An offset lies in a token, or behind a number, or in a gap. -/
def Accounts (tokens : List Token) (gaps : List Span) (pos : Nat) : Prop :=
  (∃ token ∈ tokens, token.span.Holds pos) ∨ (∃ token ∈ tokens, token.kind = .constant ∧ token.stop ≤ pos) ∨
    ∃ gap ∈ gaps, gap.Holds pos

theorem Accounts.mono {tokens others : List Token} {gaps holes : List Span} (h : Accounts tokens gaps pos)
    (ht : tokens ⊆ others) (hg : gaps ⊆ holes) : Accounts others holes pos := by
  rcases h with ⟨token, hmem, hholds⟩ | ⟨token, hmem, hnumber⟩ | ⟨gap, hmem, hholds⟩
  · exact .inl ⟨token, ht hmem, hholds⟩
  · exact .inr (.inl ⟨token, ht hmem, hnumber⟩)
  · exact .inr (.inr ⟨gap, hg hmem, hholds⟩)

theorem scan_accounts (ht : t.table.isEmpty = true) (h : Span.InOrder lo hi (fragments.map Fragment.span))
    (hs : hi ≤ stop) {fragment : Fragment} (hf : fragment ∈ fragments) (hp : fragment.span.Holds pos) :
    Accounts (t.scan stop .word fragments) (Fragment.unread t.rules fragments) pos := by
  induction fragments generalizing lo with
  | nil => cases hf
  | cons first rest ih =>
    have hlast := (h.bounds fragment.span (List.mem_map_of_mem hf)).2
    have hstop : pos < stop := Nat.lt_of_lt_of_le hp.2 (hlast.trans hs)
    obtain ⟨_, hfirst, hrest⟩ := h
    have hplace : first.span.Holds pos ∨ fragment ∈ rest ∧ first.stop ≤ pos := by
      rcases List.mem_cons.1 hf with rfl | hf
      · exact .inl hp
      · exact .inr ⟨hf, (hrest.le_start fragment.span (List.mem_map_of_mem hf)).trans hp.1⟩
    rcases scan_cons_of_isEmpty ht stop first rest with
      ⟨marker, hm, hcut⟩ | ⟨hm, hcut | ⟨kind, _, hcut⟩⟩
    · -- the remark starts in this fragment and takes all that follows
      have hge : first.start ≤ pos := by
        rcases hplace with hh | ⟨_, hle⟩
        · exact hh.1
        · exact (Nat.le_of_lt hfirst).trans hle
      by_cases hlt : pos < first.start + marker
      · exact .inr (.inr ⟨⟨first.start, first.start + marker⟩, by simp [Fragment.unread, hm], hge, hlt⟩)
      · exact .inl ⟨⟨first.start + marker, stop, .remark⟩, by simp [hcut], Nat.le_of_not_lt hlt, hstop⟩
    · rcases hplace with hh | ⟨_, hle⟩
      · exact .inl ⟨first.token .constant, by simp [hcut], hh⟩
      · exact .inr (.inl ⟨first.token .constant, by simp [hcut], rfl, hle⟩)
    · rw [hcut, Fragment.unread, hm]
      rcases hplace with hh | ⟨hlater, _⟩
      · exact .inl ⟨first.token kind, .head _, hh⟩
      · exact (ih hrest hlater).mono (List.subset_cons_self _ _) (List.Subset.refl _)

theorem segment_accounts (ht : t.table.isEmpty = true) {c : Char} (hc : Conventions.isSplit c = false)
    (front rest : Text) {offset : Nat} (hs : offset + width (front ++ c :: rest) ≤ stop) :
    Accounts (t.segment stop offset (front ++ c :: rest))
      (Fragment.unread t.rules (Fragment.ofText offset (front ++ c :: rest))) (offset + width front) := by
  obtain ⟨fragment, hmem, hholds⟩ := Fragment.exists_holds hc offset front rest
  exact scan_accounts ht (Fragment.inOrder_ofText _ _) hs hmem hholds

section Labelled

variable {front rest : Text} {c : Char} (ht : t.table.isEmpty = true) (h : t.rules.labelHead? line = some head)
  (hline : line = front ++ c :: rest) (hc : Conventions.isSplit c = false)
include ht h hline hc

/-- The word before a declared name has no marker and is no number, so it is a token. -/
theorem before_accounts (hp : width front < head.span.start) :
    ∃ token ∈ t.segment (width line) 0 head.before, token.span.Holds (width front) := by
  obtain ⟨hparts, _, _⟩ := Conventions.labelHead?_split h
  have hcut : front ++ c :: rest = head.before ++ (head.name ++ ':' :: head.after) := by
    rw [← hline, hparts, List.append_assoc]
  obtain ⟨middle, hbefore, hmiddle⟩ := exists_between hcut (Nat.le_of_lt hp)
  cases middle with
  | nil => simp [LabelHead.span, hbefore] at hp
  | cons d middle =>
    obtain ⟨rfl, _⟩ := List.cons.inj hmiddle
    have hwidth : 0 + width (front ++ c :: middle) ≤ width line := by
      rw [Nat.zero_add, ← hbefore, hparts, List.append_assoc, width_append]
      exact Nat.le_add_right _ _
    have haccounts := segment_accounts ht hc front middle hwidth
    rw [← hbefore, Nat.zero_add, Fragment.unread_of_unmarked (unmarked_before h)] at haccounts
    rcases haccounts with hholds | ⟨token, hmem, hnumber, _⟩ | ⟨_, hgap, _⟩
    · exact hholds
    · have hopen := List.any_eq_false.1 (segment_before_open h (width line)) token hmem
      simp [hnumber, Token.Kind.endsLine] at hopen
    · cases hgap

theorem after_accounts (hp : width head.lead ≤ width front) :
    Accounts (t.segment (width line) (width head.lead) head.rest)
      (Fragment.unread t.rules (Fragment.ofText (width head.lead) head.rest)) (width front) := by
  have hparts := LabelHead.lead_append_rest h
  obtain ⟨middle, rfl, hrest⟩ := exists_between (hparts.trans hline) hp
  rw [hrest, width_append]
  apply segment_accounts ht hc
  rw [← width_append, ← hrest, hparts]

theorem labelled_accounts : Accounts (t.tokens line) (t.skipped line) (width front) := by
  rw [tokens_of_labelHead? h]
  by_cases hbefore : width front < head.span.start
  · obtain ⟨token, hmem, hholds⟩ := before_accounts ht h hline hc hbefore
    exact .inl ⟨token, by simp [hmem], hholds⟩
  by_cases hname : width front < head.span.stop
  · have hspan : head.span.Holds (width front) := ⟨Nat.le_of_not_lt hbefore, hname⟩
    by_cases hanonymous : head.name = anonymousLabel
    · exact .inr (.inr ⟨head.span, (mem_skipped h).2 (.inl ⟨hanonymous, rfl⟩), hspan⟩)
    · have hlabel : ⟨head.span.start, head.span.stop, .labelDef⟩ ∈ labelToken head :=
        mem_labelToken.2 ⟨hanonymous, rfl⟩
      exact .inl ⟨⟨head.span.start, head.span.stop, .labelDef⟩, by simp [hlabel], hspan⟩
  by_cases hcolons : width front < width head.lead
  · exact .inr (.inr ⟨_, (mem_skipped h).2 (.inr (.inl rfl)), Nat.le_of_not_lt hname, hcolons⟩)
  · apply (after_accounts ht h hline hc (Nat.le_of_not_lt hcolons)).mono
    · exact List.subset_append_right _ _
    · exact fun gap hgap => (mem_skipped h).2 (.inr (.inr hgap))

end Labelled

theorem tokens_accounts (ht : t.table.isEmpty = true) {front rest : Text} {c : Char}
    (hline : line = front ++ c :: rest) (hc : Conventions.isSplit c = false) :
    Accounts (t.tokens line) (t.skipped line) (width front) := by
  cases hh : t.rules.labelHead? line with
  | none =>
    have hwhole := segment_accounts ht hc front rest (Nat.le_of_eq (Nat.zero_add _))
    rw [← hline, Nat.zero_add] at hwhole
    simpa only [tokens, skipped, hh] using hwhole
  | some head => exact labelled_accounts ht hh hline hc

/-! ## Each character in one token -/

/-- Where the tokens of a line end: with its first number, or with the line. -/
def readTo (t : Tokenizer) (line : Text) : Nat :=
  (((t.tokens line).find? (·.kind = .constant)).map Token.stop).getD (width line)

theorem readTo_le {token : Token} (hm : token ∈ t.tokens line) (hk : token.kind = .constant) :
    t.readTo line ≤ token.stop := by
  have horder := t.tokens_inOrder line
  have hsize := (horder.bounds token.span (List.mem_map_of_mem hm)).1
  cases hfind : (t.tokens line).find? (·.kind = .constant) with
  | none => exact absurd hk (by simpa using List.find?_eq_none.1 hfind token hm)
  | some first =>
    obtain ⟨_, before, after, htokens, hbefore⟩ := List.find?_eq_some_iff_append.1 hfind
    have hfirst : t.readTo line = first.stop := by simp [readTo, hfind]
    have hpairs := List.pairwise_map.1 horder.pairwise
    rw [htokens, List.pairwise_append, List.pairwise_cons] at hpairs
    rw [htokens, List.mem_append, List.mem_cons] at hm
    rw [hfirst]
    rcases hm with hm | rfl | hm
    · exact absurd hk (by simpa using hbefore token hm)
    · exact Nat.le_refl _
    · exact (hpairs.2.1.1 token hm).trans (Nat.le_of_lt hsize)

section Character

variable {front rest : Text} {c : Char} (hline : line = front ++ c :: rest)
include hline

theorem tokensIn_of_not_holds (h : ∀ token ∈ t.tokens line, ¬token.span.Holds (width front)) :
    t.tokensIn line ⟨width front, width front + c.utf8Size⟩ = [] := by
  apply List.filter_eq_nil_iff.2
  intro token hmem hmeets
  exact h token hmem ((t.tokens_fit line token hmem).holds_of_meets hline hmeets)

/-- Since tokens do not overlap, a token that holds a character is the only one that meets it. -/
theorem tokensIn_of_holds {token : Token} (hm : token ∈ t.tokens line) (hh : token.span.Holds (width front)) :
    t.tokensIn line ⟨width front, width front + c.utf8Size⟩ = [token] := by
  have hfit := t.tokens_fit line
  have hpairs := List.pairwise_map.1 (t.tokens_inOrder line).pairwise
  have hmeets : token.meets ⟨width front, width front + c.utf8Size⟩ = true := by
    have hsize := c.utf8Size_pos
    obtain ⟨hstart, hstop⟩ := hh
    simp only [Token.meets, Bool.and_eq_true, decide_eq_true_eq]
    exact ⟨Nat.lt_of_le_of_lt hstart (Nat.lt_add_of_pos_right hsize), hstop⟩
  obtain ⟨before, after, htokens⟩ := List.append_of_mem hm
  rw [tokensIn, htokens]
  rw [htokens, List.pairwise_append, List.pairwise_cons] at hpairs
  obtain ⟨_, ⟨hafter, _⟩, hbefore⟩ := hpairs
  have hnone {other : Token} (ho : other ∈ before ∨ other ∈ after) :
      other.meets ⟨width front, width front + c.utf8Size⟩ = false := by
    by_contra hother
    have hin : other ∈ t.tokens line := by
      rw [htokens, List.mem_append, List.mem_cons]
      exact ho.imp_right .inr
    obtain ⟨hstart, hstop⟩ := (hfit other hin).holds_of_meets hline (Bool.not_eq_false _ ▸ hother)
    rcases ho with ho | ho
    · have hle := hbefore other ho token (.head _)
      exact absurd (hle.trans hh.1) (Nat.not_le.2 hstop)
    · have hle := hafter other ho
      exact absurd (hle.trans hstart) (Nat.not_le.2 hh.2)
  have hfirst : before.filter (·.meets ⟨width front, width front + c.utf8Size⟩) = [] :=
    List.filter_eq_nil_iff.2 fun other ho => by simp [hnone (.inl ho)]
  have hlast : after.filter (·.meets ⟨width front, width front + c.utf8Size⟩) = [] :=
    List.filter_eq_nil_iff.2 fun other ho => by simp [hnone (.inr ho)]
  rw [List.filter_append, List.filter_cons, if_pos hmeets, hfirst, hlast]
  rfl

end Character

/-- Without keywords a token is a label, a number, a remark or an unknown word, and no text is
lost: a character before the end of the first number lies in exactly one token unless it cuts
fragments or is passed over, and what is passed over lies in none. -/
theorem tokens_cover_without_keywords (t : Tokenizer) (line : Text) (ht : t.table.isEmpty = true) :
    (∀ token ∈ t.tokens line, token.kind ∈ plainKinds) ∧
    ∀ front c rest, line = front ++ c :: rest → Conventions.isSplit c = false → width front < t.readTo line →
      (¬t.rules.PassedOver front c rest →
        ∃ token, t.tokensIn line ⟨width front, width front + c.utf8Size⟩ = [token] ∧
          token.start ≤ width front ∧ width front + c.utf8Size ≤ token.stop) ∧
      (t.rules.PassedOver front c rest → t.tokensIn line ⟨width front, width front + c.utf8Size⟩ = []) := by
  refine ⟨tokens_plainKinds ht line, ?_⟩
  intro front c rest hline hc hread
  have hpassed : (∃ gap ∈ t.skipped line, gap.Holds (width front)) ↔ t.rules.PassedOver front c rest :=
    hline ▸ holds_skipped_iff hc
  rw [← hpassed]
  constructor
  · intro hgaps
    rcases tokens_accounts ht hline hc with ⟨token, hmem, hholds⟩ | ⟨token, hmem, hk, hstop⟩ | hgap
    · exact ⟨token, tokensIn_of_holds hline hmem hholds, hholds.1,
        (t.tokens_fit line token hmem).stop_of_holds hline hholds⟩
    · have hle := (readTo_le hmem hk).trans hstop
      exact absurd hread (Nat.not_lt.2 hle)
    · exact absurd hgap hgaps
  · rintro ⟨gap, hmem, hstart, hstop⟩
    apply tokensIn_of_not_holds hline
    rintro token htoken ⟨hlo, hhi⟩
    rcases t.tokens_apart_skipped line gap hmem token htoken with hle | hle
    · exact absurd (hle.trans hstart) (Nat.not_le.2 hhi)
    · exact absurd (hle.trans hlo) (Nat.not_le.2 hstop)

def unknownWords : Text := "l:: foo PROC ab;c".toList

theorem tokens_cover_of_unknownWords :
    let t : Tokenizer := ⟨.degraded "no table", {}⟩
    t.table.isEmpty = true ∧
      t.tokens unknownWords = [⟨0, 1, .labelDef⟩, ⟨4, 7, .labelDef⟩, ⟨8, 12, .unknown⟩, ⟨15, 17, .remark⟩] ∧
      ¬t.rules.PassedOver "l:: f".toList 'o' "o PROC ab;c".toList ∧
      (∃ token, t.tokensIn unknownWords ⟨5, 6⟩ = [token] ∧ token.start ≤ 5 ∧ 6 ≤ token.stop) ∧
      t.rules.PassedOver "l:: foo PROC a".toList 'b' ";c".toList ∧
      t.tokensIn unknownWords ⟨14, 15⟩ = [] := by
  intro t
  have ht : t.table.isEmpty = true := by decide
  obtain ⟨_, hcover⟩ := tokens_cover_without_keywords t unknownWords ht
  have hskipped : t.skipped unknownWords = [⟨1, 3⟩, ⟨13, 15⟩] := by decide
  have hread : ¬t.rules.PassedOver "l:: f".toList 'o' "o PROC ab;c".toList := by
    rw [← holds_skipped_iff (by decide)]
    exact hskipped ▸ by decide
  have hunread : t.rules.PassedOver "l:: foo PROC a".toList 'b' ";c".toList := by
    rw [← holds_skipped_iff (by decide)]
    exact hskipped ▸ by decide
  refine ⟨ht, by decide, hread, ?_, hunread, ?_⟩
  · exact (hcover "l:: f".toList 'o' "o PROC ab;c".toList rfl (by decide) (by decide)).1 hread
  · exact (hcover "l:: foo PROC a".toList 'b' ";c".toList rfl (by decide) (by decide)).2 hunread

end Tokenizer
end AsmOutline
