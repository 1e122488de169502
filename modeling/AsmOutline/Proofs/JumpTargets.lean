import AsmOutline.Proofs.TokenOrder

/-! # Jumps and their targets

A jump passes over qualifiers such as `SHORT` or `PTR` and then looks at one fragment, which is
the use of a label unless it holds a remark, names a register or is an anonymous target. Every
use of a label comes from a jump in this way, no jump has two of them, and no target is lost.
-/
namespace AsmOutline
open Text

namespace Tokenizer

variable {t : Tokenizer} {stop : Nat} {phase : Phase} {fragment target jump : Fragment}
  {fragments between earlier rest : List Fragment} {before after : List Token} {use : Token}

/-- A jump passes over this fragment. -/
structure Qualifies (t : Tokenizer) (fragment : Fragment) : Prop where
  unmarked : ∀ c ∈ fragment.text, t.rules.isMarker c = false
  spelled : isOneOf jumpQualifiers fragment.text = true

/-- A jump takes this fragment for the name of a label. -/
structure IsTarget (t : Tokenizer) (fragment : Fragment) : Prop where
  unmarked : ∀ c ∈ fragment.text, t.rules.isMarker c = false
  unqualified : isOneOf jumpQualifiers fragment.text = false
  named : isOneOf anonymousTargets fragment.text = false
  unregistered : t.classify fragment.text ≠ some .register

/-- What stands from behind a jump up to its target. -/
structure Aims (t : Tokenizer) (between : List Fragment) (target : Fragment) : Prop where
  qualifiers : ∀ fragment ∈ between, t.Qualifies fragment
  isTarget : t.IsTarget target

def qualifierTokens (between : List Fragment) : List Token :=
  between.map (·.token (.keyword .misc))

theorem scan_qualifier (h : t.Qualifies fragment) (stop : Nat) (rest : List Fragment) :
    t.scan stop .target (fragment :: rest) = fragment.token (.keyword .misc) :: t.scan stop .target rest := by
  simp [scan, Conventions.remarkPos_eq_none_iff.2 h.unmarked, h.spelled]

theorem scan_isTarget (h : t.IsTarget fragment) (stop : Nat) (rest : List Fragment) :
    t.scan stop .target (fragment :: rest) = fragment.token .labelUse :: t.scan stop .word rest := by
  simp [scan, Conventions.remarkPos_eq_none_iff.2 h.unmarked, h.unqualified, h.named, targetKind,
    h.unregistered]

/-- A target is found behind any number of qualifiers. -/
theorem scan_aims (h : t.Aims between target) (stop : Nat) (later : List Fragment) :
    t.scan stop .target (between ++ target :: later) =
      qualifierTokens between ++ target.token .labelUse :: t.scan stop .word later := by
  induction between with
  | nil => exact scan_isTarget h.isTarget stop later
  | cons fragment between ih =>
    obtain ⟨hfirst, hrest⟩ := List.forall_mem_cons.1 h.qualifiers
    rw [List.cons_append, scan_qualifier hfirst, ih ⟨hrest, h.isTarget⟩]
    rfl

/-- The tokens of a scan whose first fragment is neither a jump nor a target. -/
def Aside (t : Tokenizer) (stop : Nat) (rest : List Fragment) (tokens : List Token) : Prop :=
  ∃ out, (∀ token ∈ out, token.kind ≠ .labelUse ∧ token.kind ≠ .keyword .jump) ∧
    (tokens = out ∨ tokens = out ++ t.scan stop .word rest)

theorem scan_word_cases (t : Tokenizer) (stop : Nat) (fragment : Fragment) (rest : List Fragment) :
    t.scan stop .word (fragment :: rest) = fragment.token (.keyword .jump) :: t.scan stop .target rest ∨
      t.Aside stop rest (t.scan stop .word (fragment :: rest)) := by
  cases hm : t.rules.remarkPos fragment.text with
  | some marker =>
    exact .inr ⟨[⟨fragment.start + marker, stop, .remark⟩], by simp, .inl (by simp [scan, hm])⟩
  | none =>
    cases hc : t.classify fragment.text with
    | some kind =>
      by_cases hj : kind = .jump
      · subst hj
        exact .inl (by simp [scan, hm, hc])
      · exact .inr ⟨[fragment.token (.keyword kind)], by simp [Fragment.token, hj],
          .inr (by simp [scan, hm, hc])⟩
    | none =>
      refine .inr ?_
      by_cases hn : (Numeral.read fragment.text).isSome = true
      · exact ⟨[fragment.token .constant], by simp [Fragment.token], .inl (by simp [scan, hm, hc, hn])⟩
      · by_cases hd : definedBy rest = true
        · exact ⟨[fragment.token .labelDef], by simp [Fragment.token],
            .inr (by simp [scan, hm, hc, hn, hd])⟩
        · by_cases he : t.table.isEmpty = true
          · exact ⟨[fragment.token .unknown], by simp [Fragment.token],
              .inr (by simp [scan, hm, hc, hn, hd, he])⟩
          · exact ⟨[], by simp, .inr (by simp [scan, hm, hc, hn, hd, he])⟩

theorem scan_target_cases (t : Tokenizer) (stop : Nat) (fragment : Fragment) (rest : List Fragment) :
    t.Qualifies fragment ∨ t.IsTarget fragment ∨
      t.Aside stop rest (t.scan stop .target (fragment :: rest)) := by
  cases hm : t.rules.remarkPos fragment.text with
  | some marker =>
    exact .inr (.inr ⟨[⟨fragment.start + marker, stop, .remark⟩], by simp, .inl (by simp [scan, hm])⟩)
  | none =>
    have hplain := Conventions.remarkPos_eq_none_iff.1 hm
    by_cases hq : isOneOf jumpQualifiers fragment.text = true
    · exact .inl ⟨hplain, hq⟩
    · by_cases ha : isOneOf anonymousTargets fragment.text = true
      · exact .inr (.inr ⟨[], by simp, .inr (by simp [scan, hm, hq, ha])⟩)
      · by_cases hr : t.classify fragment.text = some .register
        · exact .inr (.inr ⟨[fragment.token (.keyword .register)], by simp [Fragment.token],
            .inr (by simp [scan, hm, hq, ha, targetKind, hr])⟩)
        · exact .inr (.inl ⟨hplain, by simpa using hq, by simpa using ha, hr⟩)

/-- Where two lists are joined, a member stands in the first or in the second of them. -/
theorem split_append {front back : List Token} (h : front ++ back = before ++ use :: after) :
    (∃ more, front = before ++ use :: more) ∨ ∃ last, before = front ++ last ∧ back = last ++ use :: after := by
  rcases List.append_eq_append_iff.1 h with ⟨last, hbefore, hback⟩ | ⟨more, hfront, hafter⟩
  · exact .inr ⟨last, hbefore, hback⟩
  · cases more with
    | nil => exact .inr ⟨[], by simpa using hfront.symm, hafter.symm⟩
    | cons first more =>
      obtain ⟨rfl, _⟩ := List.cons.inj hafter
      exact .inl ⟨more, hfront⟩

/-- A use is then found by the scan of the rest. -/
theorem Aside.of_use (h : t.Aside stop rest (before ++ use :: after)) (hk : use.kind = .labelUse) :
    ∃ out last, before = out ++ last ∧ t.scan stop .word rest = last ++ use :: after := by
  obtain ⟨out, hout, htokens | htokens⟩ := h
  · exact absurd hk (hout use (by simp [← htokens])).1
  · rcases split_append htokens.symm with ⟨more, hmore⟩ | ⟨last, hbefore, hscan⟩
    · exact absurd hk (hout use (by simp [hmore])).1
    · exact ⟨out, last, hbefore, hscan⟩

theorem Aside.of_jump {tokens : List Token} {token : Token} (h : t.Aside stop rest tokens)
    (hk : token.kind = .keyword .jump) (hm : token ∈ tokens) : token ∈ t.scan stop .word rest := by
  obtain ⟨out, hout, rfl | rfl⟩ := h
  · exact absurd hk (hout token hm).2
  · rcases List.mem_append.1 hm with hm | hm
    · exact absurd hk (hout token hm).2
    · exact hm

/-- The use is the target of a jump among the fragments. The tokens right before it are the
jump and the qualifiers between the two. -/
def Paired (t : Tokenizer) (fragments : List Fragment) (before : List Token) (use : Token) : Prop :=
  ∃ earlier jump between target later front,
    fragments = earlier ++ jump :: (between ++ target :: later) ∧ t.Aims between target ∧
      before = front ++ jump.token (.keyword .jump) :: qualifierTokens between ∧
      use = target.token .labelUse

theorem Paired.append (h : t.Paired fragments before use) (front : List Token) :
    t.Paired fragments (front ++ before) use := by
  obtain ⟨earlier, jump, between, target, later, first, hfragments, haims, rfl, huse⟩ := h
  exact ⟨earlier, jump, between, target, later, front ++ first, hfragments, haims, by simp, huse⟩

theorem Paired.cons (h : t.Paired fragments before use) (fragment : Fragment) :
    t.Paired (fragment :: fragments) before use := by
  obtain ⟨earlier, jump, between, target, later, first, rfl, haims, hbefore, huse⟩ := h
  exact ⟨fragment :: earlier, jump, between, target, later, first, rfl, haims, hbefore, huse⟩

/-- The use is the target of the jump read before the fragments. -/
def Awaited (t : Tokenizer) (fragments : List Fragment) (before : List Token) (use : Token) : Prop :=
  ∃ between target later, fragments = between ++ target :: later ∧ t.Aims between target ∧
    before = qualifierTokens between ∧ use = target.token .labelUse

theorem Awaited.paired (h : t.Awaited fragments before use) (jump : Fragment) :
    t.Paired (jump :: fragments) (jump.token (.keyword .jump) :: before) use := by
  obtain ⟨between, target, later, rfl, haims, rfl, huse⟩ := h
  exact ⟨[], jump, between, target, later, [], rfl, haims, rfl, huse⟩

theorem Awaited.cons (h : t.Awaited fragments before use) (hq : t.Qualifies fragment) :
    t.Awaited (fragment :: fragments) (fragment.token (.keyword .misc) :: before) use := by
  obtain ⟨between, target, later, rfl, haims, rfl, huse⟩ := h
  exact ⟨fragment :: between, target, later, rfl,
    ⟨List.forall_mem_cons.2 ⟨hq, haims.qualifiers⟩, haims.isTarget⟩, rfl, huse⟩

/-- Only a scan that waits for the target of a jump starts with one. -/
theorem scan_use (h : t.scan stop phase fragments = before ++ use :: after) (hk : use.kind = .labelUse) :
    phase = .target ∧ t.Awaited fragments before use ∨ t.Paired fragments before use := by
  induction fragments generalizing phase before with
  | nil => simp [scan] at h
  | cons fragment rest ih =>
    have haside (ha : t.Aside stop rest (t.scan stop phase (fragment :: rest))) :
        t.Paired (fragment :: rest) before use := by
      rw [h] at ha
      obtain ⟨out, last, rfl, hlast⟩ := ha.of_use hk
      have hpaired := (ih hlast).resolve_left (by simp)
      exact (hpaired.append out).cons fragment
    cases phase with
    | word =>
      rcases scan_word_cases t stop fragment rest with hjump | ha
      · refine .inr ?_
        rw [hjump] at h
        rcases List.cons_eq_append_iff.1 h with ⟨_, huse⟩ | ⟨last, rfl, hlast⟩
        · cases (List.cons.inj huse).1 ▸ hk
        · rcases ih hlast with ⟨_, hawaited⟩ | hpaired
          · exact hawaited.paired fragment
          · exact (hpaired.append [_]).cons fragment
      · exact .inr (haside ha)
    | target =>
      rcases scan_target_cases t stop fragment rest with hq | hit | ha
      · rw [scan_qualifier hq] at h
        rcases List.cons_eq_append_iff.1 h with ⟨_, huse⟩ | ⟨last, rfl, hlast⟩
        · cases (List.cons.inj huse).1 ▸ hk
        · rcases ih hlast with ⟨_, hawaited⟩ | hpaired
          · exact .inl ⟨rfl, hawaited.cons hq⟩
          · exact .inr ((hpaired.append [_]).cons fragment)
      · rw [scan_isTarget hit] at h
        rcases List.cons_eq_append_iff.1 h with ⟨rfl, huse⟩ | ⟨last, rfl, hlast⟩
        · exact .inl ⟨rfl, [], fragment, rest, rfl, ⟨by simp, hit⟩, rfl, (List.cons.inj huse).1⟩
        · have hpaired := (ih hlast).resolve_left (by simp)
          exact .inr ((hpaired.append [_]).cons fragment)
      · exact .inr (haside ha)

/-- Every token but a remark covers a fragment. -/
theorem exists_fragment_of_mem_scan {token : Token} (h : token ∈ t.scan stop phase fragments)
    (hk : token.kind ≠ .remark) : ∃ fragment ∈ fragments, token = fragment.token token.kind := by
  induction fragments generalizing phase with
  | nil => simp [scan] at h
  | cons fragment rest ih =>
    have hrest {next : Phase} (hm : token ∈ t.scan stop next rest) :
        ∃ other ∈ fragment :: rest, token = other.token token.kind := by
      obtain ⟨other, ho, htoken⟩ := ih hm
      exact ⟨other, .tail _ ho, htoken⟩
    rcases scan_cons_cases t phase fragment rest with
      ⟨marker, _, hcut⟩ | ⟨_, hcut | ⟨next, hcut⟩ | ⟨kind, next, _, hcut⟩⟩
    · rw [hcut, List.mem_singleton] at h
      exact absurd (congrArg Token.kind h) hk
    · rw [hcut, List.mem_singleton] at h
      exact ⟨fragment, .head _, h ▸ rfl⟩
    · rw [hcut _ _ rfl] at h
      exact hrest h
    · rw [hcut _ _ rfl] at h
      rcases List.mem_cons.1 h with h | h
      · exact ⟨fragment, .head _, h ▸ rfl⟩
      · exact hrest h

/-- Once a jump is read, the scan goes on with what may be its target. -/
theorem scan_of_jump (ho : (earlier ++ jump :: rest).Pairwise (fun a b => a.start < b.start))
    (h : jump.token (.keyword .jump) ∈ t.scan stop phase (earlier ++ jump :: rest)) :
    ∃ front, t.scan stop phase (earlier ++ jump :: rest) =
      front ++ jump.token (.keyword .jump) :: t.scan stop .target rest := by
  induction earlier generalizing phase with
  | nil =>
    obtain ⟨hlater, _⟩ := List.pairwise_cons.1 ho
    -- the fragments behind the jump start later, so its token is not one of theirs
    have hnot (next : Phase) : jump.token (.keyword .jump) ∉ t.scan stop next rest := by
      intro hm
      obtain ⟨other, hother, htoken⟩ := exists_fragment_of_mem_scan hm (by simp [Fragment.token])
      have hlt := hlater other hother
      have hstart : jump.start = other.start := congrArg Token.start htoken
      omega
    cases phase with
    | word =>
      rcases scan_word_cases t stop jump rest with hjump | ha
      · exact ⟨[], hjump⟩
      · exact absurd (ha.of_jump rfl h) (hnot _)
    | target =>
      rcases scan_target_cases t stop jump rest with hq | hit | ha
      · rw [List.nil_append, scan_qualifier hq] at h
        exact absurd ((List.mem_cons.1 h).resolve_left (by simp [Fragment.token])) (hnot _)
      · rw [List.nil_append, scan_isTarget hit] at h
        exact absurd ((List.mem_cons.1 h).resolve_left (by simp [Fragment.token])) (hnot _)
      · exact absurd (ha.of_jump rfl h) (hnot _)
  | cons fragment earlier ih =>
    rw [List.cons_append] at ho h ⊢
    obtain ⟨hfirst, hrest⟩ := List.pairwise_cons.1 ho
    have hlt : fragment.start < jump.start := hfirst jump (by simp)
    rcases scan_cons_cases t phase fragment (earlier ++ jump :: rest) with
      ⟨marker, _, hcut⟩ | ⟨_, hcut | ⟨next, hcut⟩ | ⟨kind, next, _, hcut⟩⟩
    · rw [hcut] at h
      simp [Fragment.token] at h
    · rw [hcut] at h
      simp [Fragment.token] at h
    · rw [hcut _ _ rfl] at h ⊢
      exact ih hrest h
    · rw [hcut _ _ rfl] at h ⊢
      have hother : jump.token (.keyword .jump) ≠ fragment.token kind := by
        intro he
        have hstart : jump.start = fragment.start := congrArg Token.start he
        omega
      obtain ⟨front, hfront⟩ := ih hrest ((List.mem_cons.1 h).resolve_left hother)
      exact ⟨fragment.token kind :: front, by rw [hfront, List.cons_append]⟩

/-- The fragments of the parts of a line that are scanned on their own: all of it, or what
stands before its label and what follows the label. -/
def segments (t : Tokenizer) (line : Text) : List (List Fragment) :=
  match t.rules.labelHead? line with
  | none => [Fragment.ofText 0 line]
  | some head =>
    let rest := afterColons (head.span.stop + 1) head.after
    [Fragment.ofText 0 head.before, Fragment.ofText rest.1 rest.2]

variable {line : Text}

theorem labelToken_kind (head : LabelHead) : ∀ token ∈ labelToken head, token.kind = .labelDef := by
  unfold labelToken
  split_ifs <;> simp

theorem start_of_afterColons {head : LabelHead} (h : fragment ∈ Fragment.ofText
    (afterColons (head.span.stop + 1) head.after).1 (afterColons (head.span.stop + 1) head.after).2) :
    head.span.stop < fragment.start := by
  have hstart := (Fragment.inOrder_ofText _ _).le_start fragment.span (List.mem_map_of_mem h)
  exact Nat.lt_of_lt_of_le (afterColons_width (head.span.stop + 1) head.after).1 hstart

/-- The tokens of a line are those of its segments with the label between them, or those of the
first segment alone. -/
theorem tokens_segments (t : Tokenizer) (line : Text) :
    (∃ fragments, t.segments line = [fragments] ∧ t.tokens line = t.scan (width line) .word fragments) ∨
    ∃ first second, t.segments line = [first, second] ∧ (∀ a ∈ first, ∀ b ∈ second, a.start < b.start) ∧
      (t.tokens line = t.scan (width line) .word first ∨
        ∃ label : List Token, (∀ token ∈ label, token.kind = .labelDef) ∧
          t.tokens line =
            t.scan (width line) .word first ++ (label ++ t.scan (width line) .word second)) := by
  unfold tokens segments
  cases t.rules.labelHead? line with
  | none => exact .inl ⟨_, rfl, rfl⟩
  | some head =>
    refine .inr ⟨_, _, rfl, ?_, ?_⟩
    · intro a ha b hb
      have hbefore := (Fragment.inOrder_ofText 0 head.before).bounds a.span (List.mem_map_of_mem ha)
      have hafter := start_of_afterColons hb
      have hstop : head.span.stop = width head.before + width head.name := rfl
      simp only [Fragment.span] at hbefore
      omega
    · dsimp only
      split_ifs
      · exact .inl rfl
      · exact .inr ⟨labelToken head, labelToken_kind head, List.append_assoc _ _ _⟩

theorem segments_pairwise_start (h : fragments ∈ t.segments line) :
    fragments.Pairwise (fun a b => a.start < b.start) := by
  obtain ⟨offset, text, rfl⟩ : ∃ offset text, fragments = Fragment.ofText offset text := by
    unfold segments at h
    split at h
    · exact ⟨_, _, List.mem_singleton.1 h⟩
    · rcases List.mem_cons.1 h with h | h
      · exact ⟨_, _, h⟩
      · exact ⟨_, _, List.mem_singleton.1 h⟩
  have hstarts := (Fragment.inOrder_ofText offset text).pairwise_start
  rw [List.pairwise_map] at hstarts
  exact hstarts

/-- A use of a label comes from the scan of one segment. -/
theorem exists_segment_of_use (h : t.tokens line = before ++ use :: after) (hk : use.kind = .labelUse) :
    ∃ fragments ∈ t.segments line, ∃ front last more, before = front ++ last ∧
      t.scan (width line) .word fragments = last ++ use :: more := by
  rcases t.tokens_segments line with
    ⟨fragments, hsegments, htokens⟩ | ⟨first, second, hsegments, _, htokens | ⟨label, hlabel, htokens⟩⟩
  · exact ⟨fragments, by simp [hsegments], [], before, after, rfl, htokens ▸ h⟩
  · exact ⟨first, by simp [hsegments], [], before, after, rfl, htokens ▸ h⟩
  · rw [htokens] at h
    rcases split_append h with ⟨more, hfirst⟩ | ⟨last, rfl, hlast⟩
    · exact ⟨first, by simp [hsegments], [], before, more, rfl, hfirst⟩
    · rcases split_append hlast with ⟨more, hmore⟩ | ⟨rest, rfl, hrest⟩
      · have hdef := hlabel use (by simp [hmore])
        rw [hk] at hdef
        cases hdef
      · exact ⟨second, by simp [hsegments], _, rest, after, (List.append_assoc _ _ _).symm, hrest⟩

/-- The token of a jump comes from the scan of the segment in which the jump stands. -/
theorem exists_scan_of_jump (h : fragments ∈ t.segments line) (hf : jump ∈ fragments)
    (hm : jump.token (.keyword .jump) ∈ t.tokens line) :
    jump.token (.keyword .jump) ∈ t.scan (width line) .word fragments ∧
      ∃ front back, t.tokens line = front ++ (t.scan (width line) .word fragments ++ back) := by
  have hfar {other : List Fragment} (ho : ∀ a ∈ other, a.start ≠ jump.start) :
      jump.token (.keyword .jump) ∉ t.scan (width line) .word other := by
    intro hscan
    obtain ⟨a, ha, htoken⟩ := exists_fragment_of_mem_scan hscan (by simp [Fragment.token])
    exact ho a ha (congrArg Token.start htoken).symm
  have hlabel {label : List Token} (hl : ∀ token ∈ label, token.kind = .labelDef) :
      jump.token (.keyword .jump) ∉ label := by
    intro hmem
    cases hl _ hmem
  rcases t.tokens_segments line with
    ⟨only, hsegments, htokens⟩ | ⟨first, second, hsegments, horder, htokens | ⟨label, hl, htokens⟩⟩
  · rw [hsegments, List.mem_singleton] at h
    subst h
    exact ⟨htokens ▸ hm, [], [], by simp [htokens]⟩
  · -- the line ended before its label
    rw [hsegments, List.mem_cons, List.mem_singleton] at h
    rw [htokens] at hm ⊢
    rcases h with rfl | rfl
    · exact ⟨hm, [], [], by simp⟩
    · exact absurd hm (hfar fun a ha => Nat.ne_of_lt (horder a ha jump hf))
  · rw [hsegments, List.mem_cons, List.mem_singleton] at h
    rw [htokens, List.mem_append, List.mem_append] at hm
    rw [htokens]
    rcases h with rfl | rfl
    · have hback := hfar fun b hb => Nat.ne_of_gt (horder jump hf b hb)
      exact ⟨hm.resolve_right (not_or.2 ⟨hlabel hl, hback⟩), [], _, rfl⟩
    · have hfront := hfar fun a ha => Nat.ne_of_lt (horder a ha jump hf)
      refine ⟨(hm.resolve_left hfront).resolve_left (hlabel hl), t.scan (width line) .word first ++ label, [], ?_⟩
      rw [List.append_nil, List.append_assoc]

/-- Uses of labels and jumps go together. Every use is the target of a jump: the tokens right
before it are the jump and the qualifiers between the two. Between two uses there is a jump.
And the target of each jump that is read is such a use. -/
theorem tokens_pair_jumps (t : Tokenizer) (line : Text) :
    (∀ before use after, t.tokens line = before ++ use :: after → use.kind = .labelUse →
      ∃ fragments ∈ t.segments line, t.Paired fragments before use) ∧
    (∀ before use inner other after, t.tokens line = before ++ use :: (inner ++ other :: after) →
      use.kind = .labelUse → other.kind = .labelUse → ∃ jump ∈ inner, jump.kind = .keyword .jump) ∧
    ∀ fragments ∈ t.segments line, ∀ earlier jump between target later,
      fragments = earlier ++ jump :: (between ++ target :: later) →
      jump.token (.keyword .jump) ∈ t.tokens line → t.Aims between target →
      ∃ front back, t.tokens line = front ++ jump.token (.keyword .jump) ::
        (qualifierTokens between ++ target.token .labelUse :: back) := by
  have hpaired : ∀ before use after, t.tokens line = before ++ use :: after → use.kind = .labelUse →
      ∃ fragments ∈ t.segments line, t.Paired fragments before use := by
    intro before use after h hk
    obtain ⟨fragments, hmem, front, last, more, rfl, hscan⟩ := exists_segment_of_use h hk
    have hlast := (scan_use hscan hk).resolve_left (by simp)
    exact ⟨fragments, hmem, hlast.append front⟩
  refine ⟨hpaired, ?_, ?_⟩
  · intro before use inner other after h hk ho
    rw [← List.cons_append, ← List.append_assoc] at h
    obtain ⟨_, _, _, jump, between, _, _, front, _, _, hbefore, _⟩ := hpaired _ other after h ho
    -- the jump of the second use stands behind the first use
    rcases split_append hbefore.symm with ⟨more, rfl⟩ | ⟨last, _, hlast⟩
    · have hinner : inner = more ++ jump.token (.keyword .jump) :: qualifierTokens between := by
        simpa using hbefore
      exact ⟨jump.token (.keyword .jump), by simp [hinner], rfl⟩
    · have hmem : use ∈ jump.token (.keyword .jump) :: qualifierTokens between := by simp [hlast]
      rcases List.mem_cons.1 hmem with rfl | hmem
      · cases hk
      · obtain ⟨_, _, rfl⟩ := List.mem_map.1 hmem
        cases hk
  · rintro fragments hmem earlier jump between target later rfl hjump haims
    obtain ⟨hscan, front, back, htokens⟩ := exists_scan_of_jump hmem (by simp) hjump
    obtain ⟨first, hfirst⟩ := scan_of_jump (segments_pairwise_start hmem) hscan
    rw [scan_aims haims] at hfirst
    refine ⟨front ++ first, t.scan (width line) .word later ++ back, ?_⟩
    rw [htokens, hfirst]
    simp

end Tokenizer
end AsmOutline
