import AsmOutline.Proofs.DeclarationFolds
import AsmOutline.Proofs.WordCase

/-! # Text that no token covers

Some text of a line is passed over whatever the keywords are: the colons of a label, the name of
an anonymous label, and the part of a fragment before the marker of the remark. As spans these
come with the fragments. As characters they are told by the text around them.
-/
namespace AsmOutline
open Text

def Span.Holds (span : Span) (offset : Nat) : Prop :=
  span.start ≤ offset ∧ offset < span.stop

instance (span : Span) (offset : Nat) : Decidable (span.Holds offset) :=
  inferInstanceAs (Decidable (_ ∧ _))

/-- A character in the part of a fragment that precedes its marker: no remark has started up to the
character, and a marker follows before the fragment ends. -/
structure Conventions.BeforeMarker (rules : Conventions) (front : Text) (c : Char) (rest : Text) : Prop where
  unstarted : ∀ d ∈ front ++ [c], isSplit d = true ∨ rules.isMarker d = false
  marked : ∃ d ∈ rest.takeWhile (!isSplit ·), rules.isMarker d = true

theorem Conventions.beforeMarker_nil_iff {rules : Conventions} {rest : Text} {c : Char}
    (hc : isSplit c = false) : rules.BeforeMarker [] c rest ↔
      rules.isMarker c = false ∧ ∃ d ∈ rest.takeWhile (!isSplit ·), rules.isMarker d = true := by
  constructor
  · rintro ⟨hunstarted, hmarked⟩
    exact ⟨by simpa [hc] using hunstarted, hmarked⟩
  · rintro ⟨hm, hmarked⟩
    exact ⟨by simp [hm], hmarked⟩

theorem Conventions.beforeMarker_cons_iff {rules : Conventions} {front rest : Text} {c d : Char} :
    rules.BeforeMarker (d :: front) c rest ↔
      (isSplit d = true ∨ rules.isMarker d = false) ∧ rules.BeforeMarker front c rest := by
  constructor
  · rintro ⟨hunstarted, hmarked⟩
    obtain ⟨hd, hfront⟩ := List.forall_mem_cons.1 hunstarted
    exact ⟨hd, hfront, hmarked⟩
  · rintro ⟨hd, hfront, hmarked⟩
    exact ⟨List.forall_mem_cons.2 ⟨hd, hfront⟩, hmarked⟩

namespace LabelHead

/-- The line up to the end of the label's colons, of which there are one or two. -/
def lead (head : LabelHead) : Text :=
  head.before ++ head.name ++ if head.after.head? = some ':' then [':', ':'] else [':']

/-- The line behind the colons. -/
def rest (head : LabelHead) : Text :=
  if head.after.head? = some ':' then head.after.tail else head.after

theorem width_lead (head : LabelHead) :
    width head.lead = head.span.stop + if head.after.head? = some ':' then 2 else 1 := by
  rw [lead, width_append, width_append, span]
  split_ifs <;> simp [utf8Size_colon]

theorem stop_lt_lead (head : LabelHead) : head.span.stop < width head.lead := by
  rw [width_lead]
  split_ifs <;> omega

theorem afterColons_eq (head : LabelHead) :
    Tokenizer.afterColons (head.span.stop + 1) head.after = (width head.lead, head.rest) := by
  rcases Tokenizer.afterColons_cases (head.span.stop + 1) head.after with
    ⟨others, hafter, hcolons⟩ | ⟨hafter, hcolons⟩
  · rw [hcolons, width_lead, rest, hafter]
    rfl
  · rw [hcolons, width_lead, rest, if_neg hafter, if_neg hafter]

theorem lead_append_rest {rules : Conventions} {line : Text} {head : LabelHead}
    (h : rules.labelHead? line = some head) : head.lead ++ head.rest = line := by
  obtain ⟨hline, _, _⟩ := Conventions.labelHead?_split h
  rw [lead, rest, hline]
  split_ifs with hcolon
  · obtain ⟨others, hafter⟩ := List.head?_eq_some_iff.1 hcolon
    simp [hafter]
  · simp

end LabelHead

/-- A character of a line that belongs to no token: a colon behind the label, a character of an
anonymous label, or one before the marker of the remark. -/
inductive Conventions.PassedOver (rules : Conventions) (front : Text) (c : Char) (rest : Text) : Prop
  | colon {head : LabelHead} (hh : rules.labelHead? (front ++ c :: rest) = some head)
    (hf : front = head.before ++ head.name)
  | secondColon {head : LabelHead} (hh : rules.labelHead? (front ++ c :: rest) = some head)
    (hf : front = head.before ++ head.name ++ [':']) (hc : c = ':')
  | anonymous {head : LabelHead} (hh : rules.labelHead? (front ++ c :: rest) = some head)
    (hn : head.name = Tokenizer.anonymousLabel) (hs : head.span.Holds (width front))
  | behindLabel {head : LabelHead} {middle : Text} (hh : rules.labelHead? (front ++ c :: rest) = some head)
    (hf : front = head.lead ++ middle) (hb : rules.BeforeMarker middle c rest)
  | unlabelled (hh : rules.labelHead? (front ++ c :: rest) = none) (hb : rules.BeforeMarker front c rest)

namespace Fragment

variable {rules : Conventions} {c : Char} {lo hi offset : Nat} {fragments : List Fragment}

theorem cut_run (offset : Nat) (text : Text) :
    (cut offset text).1 = text.takeWhile (!Conventions.isSplit ·) := by
  induction text generalizing offset with
  | nil => rfl
  | cons c text ih => by_cases hc : Conventions.isSplit c = true <;> simp [cut, hc, ih]

/-- The part before the marker, of the first fragment that has one. -/
def unread (rules : Conventions) : List Fragment → List Span
  | [] => []
  | fragment :: rest =>
    match rules.remarkPos fragment.text with
    | some marker => [⟨fragment.start, fragment.start + marker⟩]
    | none => unread rules rest

theorem unread_of_unmarked (h : ∀ fragment ∈ fragments, rules.remarkPos fragment.text = none) :
    unread rules fragments = [] := by
  induction fragments with
  | nil => rfl
  | cons fragment later ih =>
    obtain ⟨hfirst, hlater⟩ := List.forall_mem_cons.1 h
    rw [unread, hfirst, ih hlater]

theorem le_start_of_unread (h : Span.InOrder lo hi (fragments.map span)) :
    ∀ gap ∈ unread rules fragments, lo ≤ gap.start := by
  induction fragments generalizing lo with
  | nil => simp [unread]
  | cons fragment later ih =>
    obtain ⟨hlo, hne, hlater⟩ := h
    intro gap hgap
    rw [unread] at hgap
    split at hgap
    · obtain rfl := List.mem_singleton.1 hgap
      exact hlo
    · exact (hlo.trans (Nat.le_of_lt hne)).trans (ih hlater gap hgap)

theorem unread_ofText (offset : Nat) (text : Text) : unread rules (ofText offset text) =
    match rules.remarkPos (cut offset text).1 with
    | some marker => [⟨offset, offset + marker⟩]
    | none => unread rules (cut offset text).2 := by
  rw [ofText]
  cases (cut offset text).1 with
  | nil => simp [cons, Conventions.remarkPos]
  | cons _ _ => simp only [cons, unread]

theorem holds_unread_cons_iff (hc : Conventions.isSplit c = false) (offset : Nat) (rest : Text) :
    (∃ gap ∈ unread rules (ofText offset (c :: rest)), gap.Holds offset) ↔ rules.BeforeMarker [] c rest := by
  have hsize := c.utf8Size_pos
  rw [unread_ofText, cut_cons_unsplit hc, Conventions.beforeMarker_nil_iff hc, ← cut_run (offset + c.utf8Size)]
  by_cases hm : rules.isMarker c = true
  · simp [Conventions.remarkPos, hm, Span.Holds]
  · cases hr : rules.remarkPos (cut (offset + c.utf8Size) rest).1 with
    | some marker =>
      obtain ⟨_, d, _, hd, _, hmark, _⟩ := Conventions.remarkPos_eq_some_iff.1 hr
      have hmarked : ∃ d ∈ (cut (offset + c.utf8Size) rest).1, rules.isMarker d = true :=
        ⟨d, by simp [hd], hmark⟩
      have hlt : 0 < c.utf8Size + marker := Nat.add_pos_left hsize marker
      simp [Conventions.remarkPos, hm, hr, Span.Holds, hmarked, hlt]
    | none =>
      have hplain := Conventions.remarkPos_eq_none_iff.1 hr
      -- the next gap starts behind the first fragment
      obtain ⟨_, _, hlater⟩ := ofText_cons_unsplit hc offset rest ▸ inOrder_ofText offset (c :: rest)
      have hbehind : ∀ gap ∈ unread rules (cut (offset + c.utf8Size) rest).2, ¬gap.Holds offset := by
        rintro gap hgap ⟨hstart, _⟩
        have hle := le_start_of_unread hlater gap hgap
        simp only [span, stop, width_cons] at hle
        omega
      apply iff_of_false
      · simpa [Conventions.remarkPos, hm, hr] using hbehind
      · rintro ⟨_, d, hd, hmark⟩
        exact absurd hmark (by simp [hplain d hd])

/-- What is unread is what stands before the first marker, in its fragment. -/
theorem holds_unread_iff (hc : Conventions.isSplit c = false) (offset : Nat) (front rest : Text) :
    (∃ gap ∈ unread rules (ofText offset (front ++ c :: rest)), gap.Holds (offset + width front)) ↔
      rules.BeforeMarker front c rest := by
  induction front generalizing offset with
  | nil => exact holds_unread_cons_iff hc offset rest
  | cons d front ih =>
    rw [List.cons_append, width_cons, ← Nat.add_assoc, Conventions.beforeMarker_cons_iff,
      ← ih (offset + d.utf8Size)]
    by_cases hd : Conventions.isSplit d = true
    · rw [ofText_cons_split hd]
      simp [hd]
    · have hunsplit : Conventions.isSplit d = false := Bool.not_eq_true _ ▸ hd
      rw [unread_ofText, unread_ofText, cut_cons_unsplit hunsplit]
      by_cases hm : rules.isMarker d = true
      · simp [hd, Conventions.remarkPos, hm, Span.Holds]
      · cases hr : rules.remarkPos (cut (offset + d.utf8Size) (front ++ c :: rest)).1 with
        | some marker =>
          simp [Conventions.remarkPos, hm, hr, Span.Holds]
          omega
        | none => simp [Conventions.remarkPos, hm, hr]

end Fragment

namespace Tokenizer

variable {t : Tokenizer} {line : Text} {head : LabelHead} {lo hi stop pos : Nat} {phase : Phase}
  {fragments : List Fragment}

/-- No token covers what is unread. -/
theorem scan_apart_unread (h : Span.InOrder lo hi (fragments.map Fragment.span)) :
    ∀ gap ∈ Fragment.unread t.rules fragments, ∀ token ∈ t.scan stop phase fragments,
      token.stop ≤ gap.start ∨ gap.stop ≤ token.start := by
  induction fragments generalizing lo phase with
  | nil => simp [scan]
  | cons fragment rest ih =>
    obtain ⟨_, _, hrest⟩ := h
    intro gap hgap token htoken
    rw [Fragment.unread] at hgap
    have hbehind (hm : t.rules.remarkPos fragment.text = none) : fragment.stop ≤ gap.start := by
      rw [hm] at hgap
      exact Fragment.le_start_of_unread hrest gap hgap
    rcases scan_cons_cases t phase fragment rest with
      ⟨marker, hm, hcut⟩ | ⟨hm, hcut | ⟨next, hcut⟩ | ⟨kind, next, _, hcut⟩⟩
    · rw [hcut, List.mem_singleton] at htoken
      rw [hm, List.mem_singleton] at hgap
      subst htoken hgap
      exact .inr (Nat.le_refl _)
    · rw [hcut, List.mem_singleton] at htoken
      subst htoken
      exact .inl (hbehind hm)
    · rw [hcut _ _ rfl] at htoken
      rw [hm] at hgap
      exact ih hrest gap hgap token htoken
    · rw [hcut _ _ rfl] at htoken
      rcases List.mem_cons.1 htoken with rfl | htoken
      · exact .inl (hbehind hm)
      · rw [hm] at hgap
        exact ih hrest gap hgap token htoken

/-! ## Lines with a label -/

theorem read_of_declares {rules : Conventions} {word : Text} (h : rules.Declares word) :
    Numeral.read word = none := by
  rw [← Numeral.read_lower]
  rcases h.spelled with hs | hs
  · rw [hs]
    decide
  · rw [hs]
    decide

theorem unmarked_before (h : t.rules.labelHead? line = some head) :
    ∀ fragment ∈ Fragment.ofText 0 head.before, t.rules.remarkPos fragment.text = none := by
  obtain ⟨_, form, hv, _, rfl⟩ := Conventions.exists_form_of_labelHead? h
  rw [LabelForm.ofText_before hv]
  cases form with
  | plain _ _ _ => simp [LabelForm.fragments]
  | declared _ word _ _ _ =>
    intro fragment hmem
    obtain rfl := List.mem_singleton.1 hmem
    exact Conventions.remarkPos_eq_none_iff.2 hv.2.1.unmarked

/-- The word before a declared name is neither a remark nor a number, so the line goes on behind it. -/
theorem segment_before_open (h : t.rules.labelHead? line = some head) (stop : Nat) :
    (t.segment stop 0 head.before).any (·.kind.endsLine) = false := by
  have hplain := unmarked_before h
  obtain ⟨_, form, hv, _, rfl⟩ := Conventions.exists_form_of_labelHead? h
  rw [segment, LabelForm.ofText_before hv]
  rw [LabelForm.ofText_before hv] at hplain
  cases form with
  | plain _ _ _ => rfl
  | declared blanks word gap name after =>
    have hm : t.rules.remarkPos word = none := hplain ⟨width blanks, word⟩ (.head _)
    have hread := read_of_declares hv.2.1
    cases hc : t.classify word with
    | some kind =>
      cases kind <;> simp [LabelForm.fragments, scan, hm, hc, Fragment.token, Token.Kind.endsLine]
    | none =>
      cases he : t.table.isEmpty <;>
        simp [LabelForm.fragments, scan, hm, hc, hread, he, definedBy, Fragment.token, Token.Kind.endsLine]

/-- The tokens of a line with a label: those before it, the label, and those behind the colons. -/
theorem tokens_of_labelHead? (h : t.rules.labelHead? line = some head) :
    t.tokens line = t.segment (width line) 0 head.before ++ labelToken head ++
      t.segment (width line) (width head.lead) head.rest := by
  simp [tokens, h, segment_before_open h, LabelHead.afterColons_eq]

theorem mem_labelToken {token : Token} : token ∈ labelToken head ↔
    head.name ≠ anonymousLabel ∧ token = ⟨head.span.start, head.span.stop, .labelDef⟩ := by
  unfold labelToken
  split_ifs with hname <;> simp [hname]

theorem stop_le_of_before {token : Token} (h : t.rules.labelHead? line = some head)
    (hm : token ∈ t.segment stop 0 head.before) : token.stop ≤ head.span.start := by
  have horder := segment_inOrder_of_open (segment_before_open h stop)
  rw [Nat.zero_add] at horder
  exact (horder.bounds token.span (List.mem_map_of_mem hm)).2

theorem le_start_of_after {token : Token} (h : t.rules.labelHead? line = some head)
    (hm : token ∈ t.segment (width line) (width head.lead) head.rest) : width head.lead ≤ token.start := by
  have hwidth : width head.lead + width head.rest = width line := by
    rw [← width_append, LabelHead.lead_append_rest h]
  exact (segment_inOrder _ _ (Nat.le_of_eq hwidth)).le_start token.span (List.mem_map_of_mem hm)

/-! ## What no token covers -/

/-- The spans that are passed over: the name of an anonymous label, the one or two colons behind a
label, and the part of a fragment before the marker of the remark. -/
def skipped (t : Tokenizer) (line : Text) : List Span :=
  match t.rules.labelHead? line with
  | none => Fragment.unread t.rules (Fragment.ofText 0 line)
  | some head =>
    (if head.name = anonymousLabel then [head.span] else []) ++
      ⟨head.span.stop, width head.lead⟩ :: Fragment.unread t.rules (Fragment.ofText (width head.lead) head.rest)

theorem mem_skipped {gap : Span} (h : t.rules.labelHead? line = some head) : gap ∈ t.skipped line ↔
    head.name = anonymousLabel ∧ gap = head.span ∨
      gap = ⟨head.span.stop, width head.lead⟩ ∨
      gap ∈ Fragment.unread t.rules (Fragment.ofText (width head.lead) head.rest) := by
  simp only [skipped, h, List.mem_append, List.mem_cons]
  split_ifs with hname <;> simp [hname]

theorem tokens_apart_skipped (t : Tokenizer) (line : Text) :
    ∀ gap ∈ t.skipped line, ∀ token ∈ t.tokens line, token.stop ≤ gap.start ∨ gap.stop ≤ token.start := by
  cases hh : t.rules.labelHead? line with
  | none =>
    simp only [skipped, tokens, hh]
    exact scan_apart_unread (Fragment.inOrder_ofText 0 line)
  | some head =>
    have hspan : head.span.start ≤ head.span.stop := Nat.le_add_right _ _
    have hcolons := head.stop_lt_lead
    have horder := Fragment.inOrder_ofText (width head.lead) head.rest
    intro gap hgap token htoken
    rw [tokens_of_labelHead? hh, List.mem_append, List.mem_append, mem_labelToken] at htoken
    rcases (mem_skipped hh).1 hgap with ⟨hanonymous, rfl⟩ | rfl | hunread
    · rcases htoken with (hfront | ⟨hname, rfl⟩) | hlast
      · exact .inl (stop_le_of_before hh hfront)
      · exact absurd hanonymous hname
      · exact .inr (by have hstart := le_start_of_after hh hlast; omega)
    · rcases htoken with (hfront | ⟨_, rfl⟩) | hlast
      · exact .inl ((stop_le_of_before hh hfront).trans hspan)
      · exact .inl (Nat.le_refl _)
      · exact .inr (le_start_of_after hh hlast)
    · have hbehind := Fragment.le_start_of_unread horder gap hunread
      rcases htoken with (hfront | ⟨_, rfl⟩) | hlast
      · have hstop := stop_le_of_before hh hfront
        exact .inl (by omega)
      · exact .inl (by dsimp only; omega)
      · exact scan_apart_unread horder gap hunread token hlast

/-! ## Passed over, as characters -/

section PassedOver

variable {front rest : Text} {c : Char}

/-- Between the name and the end of the colons there are only colons. -/
theorem passedOver_of_colons (h : t.rules.labelHead? (front ++ c :: rest) = some head)
    (hlo : head.span.stop ≤ width front) (hhi : width front < width head.lead) :
    t.rules.PassedOver front c rest := by
  obtain ⟨hline, _, _⟩ := Conventions.labelHead?_split h
  have hname : width (head.before ++ head.name) = head.span.stop := by rw [width_append, LabelHead.span]
  rw [← hname] at hlo
  obtain ⟨middle, hfront, hcolons⟩ := exists_between hline.symm hlo
  cases middle with
  | nil => exact .colon h (by simpa using hfront)
  | cons d middle =>
    obtain ⟨rfl, hafter⟩ := List.cons.inj hcolons
    have hwidth : width front = head.span.stop + 1 + width middle := by
      rw [hfront, width_append, hname, width_cons, utf8Size_colon, Nat.add_assoc]
    rw [LabelHead.width_lead, hwidth] at hhi
    split_ifs at hhi with hsecond
    · have hnil : middle = [] := width_eq_zero_iff.1 (by omega)
      rw [hafter, hnil] at hsecond
      exact .secondColon h (hnil ▸ hfront) (Option.some.inj hsecond)
    · omega

/-- The skipped spans hold exactly the characters that are passed over. -/
theorem holds_skipped_iff (hc : Conventions.isSplit c = false) :
    (∃ gap ∈ t.skipped (front ++ c :: rest), gap.Holds (width front)) ↔ t.rules.PassedOver front c rest := by
  constructor
  · rintro ⟨gap, hgap, hholds⟩
    cases hh : t.rules.labelHead? (front ++ c :: rest) with
    | none =>
      rw [skipped, hh] at hgap
      have hunread := (Fragment.holds_unread_iff hc 0 front rest).1 ⟨gap, hgap, by rwa [Nat.zero_add]⟩
      exact .unlabelled hh hunread
    | some head =>
      rcases (mem_skipped hh).1 hgap with ⟨hname, rfl⟩ | rfl | hunread
      · exact .anonymous hh hname hholds
      · exact passedOver_of_colons hh hholds.1 hholds.2
      · have hline := LabelHead.lead_append_rest hh
        have hbehind := Fragment.le_start_of_unread (Fragment.inOrder_ofText _ _) gap hunread
        obtain ⟨middle, rfl, hrest⟩ := exists_between hline (hbehind.trans hholds.1)
        rw [hrest] at hunread
        rw [width_append] at hholds
        exact .behindLabel hh rfl ((Fragment.holds_unread_iff hc _ middle rest).1 ⟨gap, hunread, hholds⟩)
  · intro hpassed
    cases hpassed with
    | @colon head hh hf =>
      have hstart : width front = head.span.stop := by rw [hf, width_append, LabelHead.span]
      exact ⟨_, (mem_skipped hh).2 (.inr (.inl rfl)), Nat.le_of_eq hstart.symm, hstart ▸ head.stop_lt_lead⟩
    | @secondColon head hh hf hcolon =>
      have hstart : width front = head.span.stop + 1 := by
        rw [hf, width_append, width_append, LabelHead.span, width_cons, width_nil, utf8Size_colon]
      obtain ⟨hline, _, _⟩ := Conventions.labelHead?_split hh
      have hafter : head.after = ':' :: rest := by simpa [hf, hcolon] using hline.symm
      refine ⟨_, (mem_skipped hh).2 (.inr (.inl rfl)), ?_, ?_⟩
      · rw [hstart]
        exact Nat.le_succ _
      · rw [LabelHead.width_lead, hafter, hstart]
        exact Nat.lt_succ_self _
    | anonymous hh hn hs => exact ⟨_, (mem_skipped hh).2 (.inl ⟨hn, rfl⟩), hs⟩
    | @behindLabel head middle hh hf hb =>
      have hrest : head.rest = middle ++ c :: rest := by simpa [hf] using LabelHead.lead_append_rest hh
      obtain ⟨gap, hgap, hholds⟩ := (Fragment.holds_unread_iff hc (width head.lead) middle rest).2 hb
      rw [← hrest] at hgap
      rw [← width_append, ← hf] at hholds
      exact ⟨gap, (mem_skipped hh).2 (.inr (.inr hgap)), hholds⟩
    | unlabelled hh hb =>
      obtain ⟨gap, hgap, hholds⟩ := (Fragment.holds_unread_iff hc 0 front rest).2 hb
      rw [Nat.zero_add] at hholds
      refine ⟨gap, ?_, hholds⟩
      rwa [skipped, hh]

end PassedOver

end Tokenizer
end AsmOutline
