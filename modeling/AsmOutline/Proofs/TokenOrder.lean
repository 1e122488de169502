import AsmOutline.Token.Tokenizer
import Mathlib.Tactic.SplitIfs

/-! # Tokens stand in order

The fragments of a text and the tokens of a line are non-empty spans, and each of them
ends no later than the next one starts.
-/
namespace AsmOutline
open Text

theorem Text.width_pos {text : Text} (h : text ≠ []) : 0 < width text := by
  cases text with
  | nil => exact absurd rfl h
  | cons c cs =>
    have hc := c.utf8Size_pos
    rw [width_cons]
    omega

theorem Text.utf8Size_colon : (':' : Char).utf8Size = 1 := by decide

namespace Span

/-- Non-empty spans between two offsets, without overlap. -/
def InOrder (lo hi : Nat) : List Span → Prop
  | [] => lo ≤ hi
  | span :: rest => lo ≤ span.start ∧ span.start < span.stop ∧ InOrder span.stop hi rest

variable {lo mid hi : Nat} {spans later : List Span}

theorem InOrder.le (h : InOrder lo hi spans) : lo ≤ hi := by
  induction spans generalizing lo with
  | nil => exact h
  | cons span rest ih =>
    obtain ⟨hl, hs, hr⟩ := h
    have hrest := ih hr
    omega

theorem InOrder.mono_left (h : InOrder mid hi spans) (hs : lo ≤ mid) : InOrder lo hi spans := by
  cases spans with
  | nil => exact Nat.le_trans hs h
  | cons span rest => exact ⟨Nat.le_trans hs h.1, h.2⟩

theorem InOrder.append (h : InOrder lo mid spans) (hl : InOrder mid hi later) :
    InOrder lo hi (spans ++ later) := by
  induction spans generalizing lo with
  | nil => exact hl.mono_left h
  | cons span rest ih => exact ⟨h.1, h.2.1, ih h.2.2⟩

theorem InOrder.le_start (h : InOrder lo hi spans) : ∀ span ∈ spans, lo ≤ span.start := by
  induction spans generalizing lo with
  | nil => simp
  | cons first rest ih =>
    obtain ⟨hl, hs, hr⟩ := h
    intro span hm
    rcases List.mem_cons.1 hm with rfl | hm
    · exact hl
    · have hrest := ih hr span hm
      omega

theorem InOrder.bounds (h : InOrder lo hi spans) : ∀ span ∈ spans, span.start < span.stop ∧ span.stop ≤ hi := by
  induction spans generalizing lo with
  | nil => simp
  | cons first rest ih =>
    obtain ⟨_, hs, hr⟩ := h
    intro span hm
    rcases List.mem_cons.1 hm with rfl | hm
    · exact ⟨hs, hr.le⟩
    · exact ih hr span hm

theorem InOrder.pairwise (h : InOrder lo hi spans) : spans.Pairwise (fun a b => a.stop ≤ b.start) := by
  induction spans generalizing lo with
  | nil => exact .nil
  | cons first rest ih =>
    obtain ⟨_, _, hr⟩ := h
    exact List.pairwise_cons.2 ⟨hr.le_start, ih hr⟩

theorem InOrder.pairwise_start (h : InOrder lo hi spans) :
    spans.Pairwise (fun a b => a.start < b.start) := by
  apply h.pairwise.imp_of_mem
  intro a b ha _ hab
  exact Nat.lt_of_lt_of_le (h.bounds a ha).1 hab

end Span

def Token.span (token : Token) : Span :=
  ⟨token.start, token.stop⟩

namespace Fragment

def span (fragment : Fragment) : Span :=
  ⟨fragment.start, fragment.stop⟩

variable {offset hi : Nat}

theorem inOrder_cons {run : Text} {later : List Fragment}
    (h : Span.InOrder (offset + width run) hi (later.map span)) :
    Span.InOrder offset hi ((cons offset run later).map span) := by
  cases run with
  | nil => exact h
  | cons c cs =>
    refine ⟨Nat.le_refl _, ?_, h⟩
    exact Nat.lt_add_of_pos_right (width_pos (List.cons_ne_nil c cs))

theorem inOrder_cut (offset : Nat) (text : Text) :
    Span.InOrder (offset + width (cut offset text).1) (offset + width text)
      ((cut offset text).2.map span) := by
  induction text generalizing offset with
  | nil => exact Nat.le_refl _
  | cons c cs ih =>
    have hrest := ih (offset + c.utf8Size)
    rw [width_cons, ← Nat.add_assoc]
    by_cases hc : Conventions.isSplit c = true
    · simp only [cut, hc, if_true, width_nil]
      exact (inOrder_cons hrest).mono_left (by omega)
    · simp only [cut, hc, Bool.false_eq_true, if_false, width_cons]
      exact hrest.mono_left (by omega)

theorem inOrder_ofText (offset : Nat) (text : Text) :
    Span.InOrder offset (offset + width text) ((ofText offset text).map span) :=
  inOrder_cons (inOrder_cut offset text)

end Fragment

namespace Conventions

variable {rules : Conventions} {text : Text}

theorem remarkPos_eq_some_iff {marker : Nat} :
    rules.remarkPos text = some marker ↔
      ∃ front c rest, text = front ++ c :: rest ∧ (∀ d ∈ front, rules.isMarker d = false) ∧
        rules.isMarker c = true ∧ width front = marker := by
  induction text generalizing marker with
  | nil => simp [remarkPos]
  | cons c cs ih =>
    by_cases hc : rules.isMarker c = true
    · simp only [remarkPos, hc, if_true, Option.some.injEq]
      constructor
      · rintro rfl
        exact ⟨[], c, cs, rfl, by simp, hc, rfl⟩
      · rintro ⟨front, d, rest, htext, hfront, _, rfl⟩
        cases front with
        | nil => rfl
        | cons e front =>
          obtain ⟨rfl, _⟩ := List.cons.inj htext
          simp [hc] at hfront
    · simp only [remarkPos, hc, Bool.false_eq_true, if_false, Option.map_eq_some_iff, ih]
      constructor
      · rintro ⟨_, ⟨front, d, rest, rfl, hfront, hd, rfl⟩, rfl⟩
        exact ⟨c :: front, d, rest, rfl, by simpa [hc] using hfront, hd, rfl⟩
      · rintro ⟨front, d, rest, htext, hfront, hd, rfl⟩
        cases front with
        | nil =>
          obtain ⟨rfl, _⟩ := List.cons.inj htext
          exact absurd hd hc
        | cons e front =>
          obtain ⟨rfl, rfl⟩ := List.cons.inj htext
          exact ⟨_, ⟨front, d, rest, rfl, fun x hx => hfront x (.tail _ hx), hd, rfl⟩, rfl⟩

theorem remarkPos_eq_none_iff : rules.remarkPos text = none ↔ ∀ c ∈ text, rules.isMarker c = false := by
  induction text with
  | nil => simp [remarkPos]
  | cons c cs ih =>
    unfold remarkPos
    by_cases hc : rules.isMarker c = true <;> simp [hc, ih]

theorem remarkPos_lt {marker : Nat} (h : rules.remarkPos text = some marker) : marker < width text := by
  obtain ⟨front, c, rest, rfl, _, _, rfl⟩ := remarkPos_eq_some_iff.1 h
  have hc := c.utf8Size_pos
  simp
  omega

/-- What the first word is cut from, read back. -/
theorem firstWord_spec (rules : Conventions) (text : Text) :
    match rules.firstWord text with
    | .label blanks name after =>
      text = blanks ++ name ++ ':' :: after ∧ (∀ c ∈ blanks, isBlank c = true) ∧
        (name ≠ [] ∧ ∀ c ∈ name, rules.endsWord c = false) ∧ rules.isMarker ':' = false
    | .word blanks word rest =>
      text = blanks ++ word ++ rest ∧ (∀ c ∈ blanks, isBlank c = true) ∧
        (word ≠ [] ∧ ∀ c ∈ word, rules.endsWord c = false) ∧ ∃ c more, rest = c :: more ∧ isBlank c = true
    | .nothing => True := by
  have htext : text.takeWhile isBlank ++ text.dropWhile isBlank = text := List.takeWhile_append_dropWhile
  have hbody : (text.dropWhile isBlank).takeWhile (!rules.endsWord ·) ++
      (text.dropWhile isBlank).dropWhile (!rules.endsWord ·) = text.dropWhile isBlank :=
    List.takeWhile_append_dropWhile
  have hblanks : ∀ c ∈ text.takeWhile isBlank, isBlank c = true := List.all_eq_true.1 List.all_takeWhile
  have hword : ∀ c ∈ (text.dropWhile isBlank).takeWhile (!rules.endsWord ·), rules.endsWord c = false := by
    intro c hc
    simpa using List.all_eq_true.1 List.all_takeWhile c hc
  unfold firstWord
  dsimp only
  cases hd : (text.dropWhile isBlank).dropWhile (!rules.endsWord ·) with
  | nil => trivial
  | cons c rest =>
    have hline : text = text.takeWhile isBlank ++ (text.dropWhile isBlank).takeWhile (!rules.endsWord ·) ++
        c :: rest := by
      rw [List.append_assoc, ← hd, hbody, htext]
    dsimp only
    by_cases hnone : (((text.dropWhile isBlank).takeWhile (!rules.endsWord ·)).isEmpty || c == '"' ||
        rules.isMarker c) = true
    · rw [if_pos hnone]
      trivial
    · rw [if_neg hnone]
      simp only [Bool.or_eq_true, List.isEmpty_iff, not_or, Bool.not_eq_true] at hnone
      split_ifs with hcolon hblank
      · obtain rfl := beq_iff_eq.1 hcolon
        exact ⟨hline, hblanks, ⟨hnone.1.1, hword⟩, hnone.2⟩
      · exact ⟨hline, hblanks, ⟨hnone.1.1, hword⟩, c, rest, rfl, hblank⟩
      · trivial

/-- A label head cuts its line in pieces that make up the line. -/
theorem labelHead?_split {line : Text} {head : LabelHead} (h : rules.labelHead? line = some head) :
    line = head.before ++ head.name ++ ':' :: head.after ∧ head.name ≠ [] ∧
      ∀ c ∈ head.name, rules.endsWord c = false := by
  have hfirst := firstWord_spec rules line
  unfold labelHead? at h
  cases hw : rules.firstWord line with
  | label blanks name after =>
    rw [hw] at h hfirst
    cases h
    exact ⟨hfirst.1, hfirst.2.2.1⟩
  | word blanks word rest =>
    have hsecond := firstWord_spec rules rest
    simp only [hw] at h hfirst
    split_ifs at h
    cases hg : rules.firstWord rest with
    | label gap name after =>
      rw [hg] at h hsecond
      cases h
      refine ⟨?_, hsecond.2.2.1⟩
      rw [hfirst.1, hsecond.1]
      simp only [List.append_assoc]
    | word _ _ _ => simp [hg] at h
    | nothing => simp [hg] at h
  | nothing => simp [hw] at h

end Conventions

namespace Tokenizer

variable {t : Tokenizer} {lo hi stop : Nat} {phase : Phase} {fragments : List Fragment}

theorem targetKind_endsLine (t : Tokenizer) (fragment : Text) : (t.targetKind fragment).endsLine = false := by
  unfold targetKind
  split <;> rfl

/-- All that the scan does with a fragment, wherever the line ends. Of the fragments after it
only that matters whether they make it a label. -/
theorem scan_cons_cases (t : Tokenizer) (phase : Phase) (fragment : Fragment) (rest : List Fragment) :
    (∃ marker, t.rules.remarkPos fragment.text = some marker ∧ ∀ stop later,
        t.scan stop phase (fragment :: later) = [⟨fragment.start + marker, stop, .remark⟩]) ∨
    t.rules.remarkPos fragment.text = none ∧
      ((∀ stop later, t.scan stop phase (fragment :: later) = [fragment.token .constant]) ∨
      (∃ next, ∀ stop later, definedBy later = definedBy rest →
        t.scan stop phase (fragment :: later) = t.scan stop next later) ∨
      (∃ kind next, kind.endsLine = false ∧ ∀ stop later, definedBy later = definedBy rest →
        t.scan stop phase (fragment :: later) = fragment.token kind :: t.scan stop next later)) := by
  cases hm : t.rules.remarkPos fragment.text with
  | some marker => exact .inl ⟨marker, rfl, fun stop later => by simp [scan, hm]⟩
  | none =>
    refine .inr ⟨rfl, ?_⟩
    cases phase with
    | target =>
      by_cases hq : isOneOf jumpQualifiers fragment.text = true
      · exact .inr (.inr ⟨.keyword .misc, .target, rfl, fun stop later _ => by simp [scan, hm, hq]⟩)
      · by_cases ha : isOneOf anonymousTargets fragment.text = true
        · exact .inr (.inl ⟨.word, fun stop later _ => by simp [scan, hm, hq, ha]⟩)
        · exact .inr (.inr ⟨t.targetKind fragment.text, .word, t.targetKind_endsLine _,
            fun stop later _ => by simp [scan, hm, hq, ha]⟩)
    | word =>
      cases hc : t.classify fragment.text with
      | some kind =>
        by_cases hj : kind = .jump
        · subst kind
          exact .inr (.inr ⟨.keyword .jump, .target, rfl, fun stop later _ => by simp [scan, hm, hc]⟩)
        · exact .inr (.inr ⟨.keyword kind, .word, rfl, fun stop later _ => by simp [scan, hm, hc]⟩)
      | none =>
        by_cases hn : (Numeral.read fragment.text).isSome = true
        · exact .inl fun stop later => by simp [scan, hm, hc, hn]
        · by_cases hd : definedBy rest = true
          · exact .inr (.inr ⟨.labelDef, .word, rfl, fun stop later h => by simp [scan, hm, hc, hn, h, hd]⟩)
          · by_cases he : t.table.isEmpty = true
            · exact .inr (.inr ⟨.unknown, .word, rfl,
                fun stop later h => by simp [scan, hm, hc, hn, h, hd, he]⟩)
            · exact .inr (.inl ⟨.word, fun stop later h => by simp [scan, hm, hc, hn, h, hd, he]⟩)

theorem scan_inOrder (h : Span.InOrder lo hi (fragments.map Fragment.span)) (hs : hi ≤ stop) :
    Span.InOrder lo stop ((t.scan stop phase fragments).map Token.span) := by
  induction fragments generalizing lo phase with
  | nil =>
    have hle : lo ≤ hi := h
    simpa [scan, Span.InOrder] using Nat.le_trans hle hs
  | cons fragment rest ih =>
    obtain ⟨hl, hne, hr⟩ := h
    have hstop : fragment.span.stop ≤ stop := Nat.le_trans hr.le hs
    rcases scan_cons_cases t phase fragment rest with
      ⟨marker, hm, hcut⟩ | ⟨_, hcut | ⟨next, hcut⟩ | ⟨kind, next, _, hcut⟩⟩
    · have hlt := Conventions.remarkPos_lt hm
      have hstop' : fragment.start + width fragment.text ≤ stop := hstop
      have hl' : lo ≤ fragment.start := hl
      rw [hcut]
      refine ⟨?_, ?_, Nat.le_refl _⟩
      · show lo ≤ fragment.start + marker
        omega
      · show fragment.start + marker < stop
        omega
    · rw [hcut]
      exact ⟨hl, hne, hstop⟩
    · rw [hcut _ _ rfl]
      exact (ih hr).mono_left (by omega)
    · rw [hcut _ _ rfl]
      exact ⟨hl, hne, ih hr⟩

/-- Only a remark looks at where the line ends. -/
theorem scan_eq_of_open (h : (t.scan stop phase fragments).any (·.kind.endsLine) = false) (other : Nat) :
    t.scan stop phase fragments = t.scan other phase fragments := by
  induction fragments generalizing phase with
  | nil => simp [scan]
  | cons fragment rest ih =>
    rcases scan_cons_cases t phase fragment rest with
      ⟨marker, hm, hcut⟩ | ⟨_, hcut | ⟨next, hcut⟩ | ⟨kind, next, _, hcut⟩⟩
    · rw [hcut] at h
      cases h
    · rw [hcut, hcut]
    · rw [hcut _ _ rfl] at h
      rw [hcut _ _ rfl, hcut _ _ rfl, ih h]
    · rw [hcut _ _ rfl, List.any_cons, Bool.or_eq_false_iff] at h
      rw [hcut _ _ rfl, hcut _ _ rfl, ih h.2]

theorem segment_inOrder (offset : Nat) (text : Text) (hs : offset + width text ≤ stop) :
    Span.InOrder offset stop ((t.segment stop offset text).map Token.span) :=
  scan_inOrder (Fragment.inOrder_ofText offset text) hs

theorem segment_inOrder_of_open {offset : Nat} {text : Text}
    (h : (t.segment stop offset text).any (·.kind.endsLine) = false) :
    Span.InOrder offset (offset + width text) ((t.segment stop offset text).map Token.span) := by
  have hsame : t.segment stop offset text = t.segment (offset + width text) offset text :=
    scan_eq_of_open h _
  rw [hsame]
  exact segment_inOrder offset text (Nat.le_refl _)

theorem labelToken_inOrder {head : LabelHead} (h : head.name ≠ []) :
    Span.InOrder head.span.start head.span.stop ((labelToken head).map Token.span) := by
  have hpos := width_pos h
  have hlt : head.span.start < head.span.stop := Nat.lt_add_of_pos_right hpos
  unfold labelToken
  split_ifs
  · exact Nat.le_of_lt hlt
  · exact ⟨Nat.le_refl _, hlt, Nat.le_refl _⟩

theorem afterColons_cases (offset : Nat) (after : Text) :
    (∃ rest, after = ':' :: rest ∧ afterColons offset after = (offset + 1, rest)) ∨
      after.head? ≠ some ':' ∧ afterColons offset after = (offset, after) := by
  unfold afterColons
  split
  · next rest => exact .inl ⟨rest, rfl, rfl⟩
  · next hcolon =>
    refine .inr ⟨fun h => ?_, rfl⟩
    obtain ⟨rest, hr⟩ := List.head?_eq_some_iff.1 h
    exact hcolon rest hr

theorem afterColons_width (offset : Nat) (after : Text) :
    offset ≤ (afterColons offset after).1 ∧
      (afterColons offset after).1 + width (afterColons offset after).2 = offset + width after := by
  rcases afterColons_cases offset after with ⟨rest, rfl, h⟩ | ⟨_, h⟩
  · rw [h, width_cons, utf8Size_colon]
    dsimp only
    omega
  · rw [h]
    exact ⟨Nat.le_refl _, rfl⟩

theorem tokens_inOrder (t : Tokenizer) (line : Text) :
    Span.InOrder 0 (width line) ((t.tokens line).map Token.span) := by
  unfold tokens
  cases hh : t.rules.labelHead? line with
  | none => exact segment_inOrder 0 line (Nat.le_of_eq (Nat.zero_add _))
  | some head =>
    obtain ⟨hline, hname, _⟩ := Conventions.labelHead?_split hh
    obtain ⟨hcolons, hrest⟩ := afterColons_width (head.span.stop + 1) head.after
    have hwidth : width line = head.span.stop + 1 + width head.after := by
      rw [hline]
      simp only [width_append, width_cons, utf8Size_colon, LabelHead.span]
      omega
    have hbefore : head.span.stop = width head.before + width head.name := rfl
    dsimp only
    split_ifs with hopen
    · exact segment_inOrder 0 head.before (by omega)
    · -- without a remark the front part keeps to the text before the label
      have hfront := segment_inOrder_of_open (Bool.not_eq_true _ ▸ hopen)
      have hlast := segment_inOrder (t := t) (afterColons (head.span.stop + 1) head.after).1
        (afterColons (head.span.stop + 1) head.after).2 (Nat.le_of_eq (hrest.trans hwidth.symm))
      rw [Nat.zero_add] at hfront
      rw [List.map_append, List.map_append]
      exact (hfront.append (labelToken_inOrder hname)).append (hlast.mono_left (by omega))

theorem labelTokens_pairwise_start (t : Tokenizer) (line : Text) :
    (t.labelTokens line).Pairwise (fun a b => a.start < b.start) := by
  have hstarts := (tokens_inOrder t line).pairwise_start
  rw [List.pairwise_map] at hstarts
  exact hstarts.filter _

end Tokenizer
end AsmOutline
