import AsmOutline.Proofs.TokenOffsets

/-! # The shape of the tokens of a line

Each token covers a piece of its line, from one boundary to another. A remark takes all
that is left of the line, and the piece of any other token is one word: there is no split
character in it and no remark marker. Nothing follows a remark or a constant.
-/
namespace AsmOutline
open Text

/-- An offset at which one character of the text ends or another one starts. -/
def Text.IsBoundary (text : Text) (offset : Nat) : Prop :=
  ∃ front rest, text = front ++ rest ∧ width front = offset

namespace Conventions

variable {rules : Conventions}

def IsWord (rules : Conventions) (piece : Text) : Prop :=
  ∀ c ∈ piece, isSplit c = false ∧ rules.isMarker c = false

theorem isSplit_endsWord {c : Char} (h : isSplit c = true) : rules.endsWord c = true := by
  simp only [isSplit, Bool.or_eq_true, List.contains_iff_mem, List.mem_cons, List.not_mem_nil, or_false] at h
  rcases h with hblank | rfl | rfl | rfl | rfl | rfl
  · simp [endsWord, isSeparator, hblank]
  all_goals simp [endsWord, isSeparator, baseSeparators]

theorem isWord_of_endsWord {piece : Text} (h : ∀ c ∈ piece, rules.endsWord c = false) : rules.IsWord piece := by
  intro c hc
  have hends := h c hc
  constructor
  · apply Bool.eq_false_iff.2
    intro hsplit
    simp [isSplit_endsWord hsplit] at hends
  · simp only [endsWord, Bool.or_eq_false_iff] at hends
    exact hends.1.2

end Conventions

/-- The piece of the line that the token covers, as the kind of the token asks for it. -/
def Token.Fits (token : Token) (rules : Conventions) (line : Text) : Prop :=
  ∃ front piece rest, line = front ++ (piece ++ rest) ∧ token.start = width front ∧
    token.stop = width front + width piece ∧
    if token.kind = .remark then rest = [] else rules.IsWord piece

namespace Fragment

/-- The text of the fragment stands in the line at its offset, and nothing splits it. -/
def StandsIn (fragment : Fragment) (line : Text) : Prop :=
  (∃ front rest, line = front ++ (fragment.text ++ rest) ∧ fragment.start = width front) ∧
    ∀ c ∈ fragment.text, Conventions.isSplit c = false

variable {line : Text}

theorem standsIn_cons (front run rest : Text) {later : List Fragment} (hline : line = front ++ (run ++ rest))
    (hrun : ∀ c ∈ run, Conventions.isSplit c = false) (hlater : ∀ fragment ∈ later, fragment.StandsIn line) :
    ∀ fragment ∈ cons (width front) run later, fragment.StandsIn line := by
  cases run with
  | nil => exact hlater
  | cons c run =>
    intro fragment hmem
    rcases List.mem_cons.1 hmem with rfl | hmem
    · exact ⟨⟨front, rest, hline, rfl⟩, hrun⟩
    · exact hlater fragment hmem

theorem standsIn_cut (front text back : Text) (hline : line = front ++ (text ++ back)) :
    (∃ rest, text = (cut (width front) text).1 ++ rest) ∧
      (∀ c ∈ (cut (width front) text).1, Conventions.isSplit c = false) ∧
      ∀ fragment ∈ (cut (width front) text).2, fragment.StandsIn line := by
  induction text generalizing front with
  | nil => simp [cut]
  | cons c cs ih =>
    have hnext : width (front ++ [c]) = width front + c.utf8Size := by simp
    obtain ⟨⟨rest, hrest⟩, hrun, hlater⟩ := ih (front ++ [c]) (by simp [hline])
    by_cases hc : Conventions.isSplit c = true
    · -- the run after `c` becomes a fragment of its own
      simp only [cut, hc, if_true, ← hnext]
      refine ⟨⟨c :: cs, rfl⟩, by simp, ?_⟩
      apply standsIn_cons _ _ (rest ++ back) _ hrun hlater
      rw [← List.append_assoc _ rest, ← hrest]
      simp [hline]
    · simp only [cut, hc, Bool.false_eq_true, if_false, ← hnext]
      exact ⟨⟨rest, congrArg (c :: ·) hrest⟩, by simpa [hc] using hrun, hlater⟩

theorem standsIn_ofText (front text back : Text) (hline : line = front ++ (text ++ back)) :
    ∀ fragment ∈ ofText (width front) text, fragment.StandsIn line := by
  obtain ⟨⟨rest, hrest⟩, hrun, hlater⟩ := standsIn_cut front text back hline
  apply standsIn_cons _ _ (rest ++ back) _ hrun hlater
  rw [← List.append_assoc _ rest, ← hrest, hline]

variable {rules : Conventions} {fragment : Fragment}

theorem StandsIn.token_fits {kind : Token.Kind} (h : fragment.StandsIn line)
    (hm : rules.remarkPos fragment.text = none) (hk : kind ≠ .remark) :
    (fragment.token kind).Fits rules line := by
  obtain ⟨⟨front, rest, hline, hstart⟩, hsplit⟩ := h
  refine ⟨front, fragment.text, rest, hline, hstart, ?_, ?_⟩
  · simp [token, stop, hstart]
  · have hword : rules.IsWord fragment.text :=
      fun c hc => ⟨hsplit c hc, Conventions.remarkPos_eq_none_iff.1 hm c hc⟩
    simpa [token, hk] using hword

theorem StandsIn.remark_fits {marker : Nat} (h : fragment.StandsIn line)
    (hm : rules.remarkPos fragment.text = some marker) :
    (⟨fragment.start + marker, width line, .remark⟩ : Token).Fits rules line := by
  obtain ⟨⟨front, rest, hline, hstart⟩, _⟩ := h
  obtain ⟨before, c, after, htext, _, _, rfl⟩ := Conventions.remarkPos_eq_some_iff.1 hm
  refine ⟨front ++ before, c :: after ++ rest, [], ?_, ?_, ?_, rfl⟩
  · simp [hline, htext]
  · simp [hstart]
  · simp [hline, htext]
    omega

end Fragment

namespace Tokenizer

variable {t : Tokenizer} {line : Text} {stop : Nat} {phase : Phase} {fragments : List Fragment}

theorem scan_fits (h : ∀ fragment ∈ fragments, fragment.StandsIn line) :
    ∀ token ∈ t.scan (width line) phase fragments, token.Fits t.rules line := by
  induction fragments generalizing phase with
  | nil => simp [scan]
  | cons fragment rest ih =>
    obtain ⟨hfirst, hrest⟩ := List.forall_mem_cons.1 h
    rcases scan_cons_cases t phase fragment rest with
      ⟨marker, hm, hcut⟩ | ⟨hm, hcut | ⟨next, hcut⟩ | ⟨kind, next, hk, hcut⟩⟩
    · rw [hcut]
      simpa using hfirst.remark_fits hm
    · rw [hcut]
      simpa using hfirst.token_fits hm (by simp)
    · rw [hcut _ _ rfl]
      exact ih hrest
    · rw [hcut _ _ rfl]
      refine List.forall_mem_cons.2 ⟨hfirst.token_fits hm ?_, ih hrest⟩
      rintro rfl
      cases hk

/-- The scan goes on only after a token that does not end the line. -/
theorem scan_open (stop : Nat) (phase : Phase) (fragments : List Fragment) :
    (t.scan stop phase fragments).Pairwise (fun a _ => a.kind.endsLine = false) := by
  induction fragments generalizing phase with
  | nil => simp [scan]
  | cons fragment rest ih =>
    rcases scan_cons_cases t phase fragment rest with
      ⟨marker, hm, hcut⟩ | ⟨hm, hcut | ⟨next, hcut⟩ | ⟨kind, next, hk, hcut⟩⟩
    · rw [hcut]
      exact List.pairwise_singleton _ _
    · rw [hcut]
      exact List.pairwise_singleton _ _
    · rw [hcut _ _ rfl]
      exact ih next
    · rw [hcut _ _ rfl]
      exact List.pairwise_cons.2 ⟨fun _ _ => hk, ih next⟩

theorem segment_fits (front text back : Text) (hline : line = front ++ (text ++ back)) :
    ∀ token ∈ t.segment (width line) (width front) text, token.Fits t.rules line :=
  scan_fits (Fragment.standsIn_ofText front text back hline)

theorem labelToken_fits {head : LabelHead} (h : t.rules.labelHead? line = some head) :
    ∀ token ∈ labelToken head, token.Fits t.rules line := by
  obtain ⟨hline, _, hname⟩ := Conventions.labelHead?_split h
  unfold labelToken
  split_ifs
  · simp
  · intro token hmem
    obtain rfl := List.mem_singleton.1 hmem
    exact ⟨head.before, head.name, ':' :: head.after, by simpa using hline, rfl, rfl,
      Conventions.isWord_of_endsWord hname⟩

theorem afterColons_fits (front after : Text) (hline : line = front ++ after) :
    ∀ token ∈ t.segment (width line) (afterColons (width front) after).1 (afterColons (width front) after).2,
      token.Fits t.rules line := by
  rcases afterColons_cases (width front) after with ⟨rest, rfl, h⟩ | ⟨_, h⟩
  · have hnext : width (front ++ [':']) = width front + 1 := by simp [utf8Size_colon]
    rw [h, ← hnext]
    exact segment_fits (front ++ [':']) rest [] (by simp [hline])
  · rw [h]
    exact segment_fits front after [] (by simp [hline])

theorem tokens_fit (t : Tokenizer) (line : Text) : ∀ token ∈ t.tokens line, token.Fits t.rules line := by
  unfold tokens
  cases hh : t.rules.labelHead? line with
  | none => exact segment_fits [] line [] (by simp)
  | some head =>
    obtain ⟨hline, _, _⟩ := Conventions.labelHead?_split hh
    have hstop : width (head.before ++ head.name ++ [':']) = head.span.stop + 1 := by
      simp [utf8Size_colon, LabelHead.span, Nat.add_assoc]
    have hfront : ∀ token ∈ t.segment (width line) 0 head.before, token.Fits t.rules line :=
      segment_fits [] head.before (head.name ++ ':' :: head.after) (by simpa using hline)
    have hafter := afterColons_fits (t := t) (head.before ++ head.name ++ [':']) head.after
      (by simpa using hline)
    rw [hstop] at hafter
    dsimp only
    split_ifs
    · exact hfront
    · simp only [List.forall_mem_append]
      exact ⟨⟨hfront, labelToken_fits hh⟩, hafter⟩

theorem labelToken_open (head : LabelHead) : ∀ token ∈ labelToken head, token.kind.endsLine = false := by
  unfold labelToken
  split_ifs <;> simp [Token.Kind.endsLine]

theorem tokens_open (t : Tokenizer) (line : Text) :
    (t.tokens line).Pairwise (fun a _ => a.kind.endsLine = false) := by
  unfold tokens
  cases t.rules.labelHead? line with
  | none => exact scan_open _ _ _
  | some head =>
    dsimp only
    split_ifs with hends
    · exact scan_open _ _ _
    · have hfront : ∀ token ∈ t.segment (width line) 0 head.before, token.kind.endsLine = false := by
        simpa using hends
      have hopen := List.forall_mem_append.2 ⟨hfront, labelToken_open head⟩
      refine List.pairwise_append.2 ⟨?_, scan_open _ _ _, fun a ha _ _ => hopen a ha⟩
      exact List.Pairwise.imp_of_mem (fun ha _ _ => hopen _ ha) (List.pairwise_of_forall fun _ _ => trivial)

end Tokenizer

/-- What every reader of the tokens of a line may rely on. -/
structure Token.WellFormed (rules : Conventions) (line : Text) (tokens : List Token) : Prop where
  bounds : ∀ token ∈ tokens, token.start < token.stop ∧ token.stop ≤ width line
  boundaries : ∀ token ∈ tokens, IsBoundary line token.start ∧ IsBoundary line token.stop
  ordered : tokens.Pairwise fun earlier later => earlier.stop ≤ later.start
  remark_stop : ∀ token ∈ tokens, token.kind = .remark → token.stop = width line
  last : ∀ before token after, tokens = before ++ token :: after →
    token.kind = .remark ∨ token.kind = .constant → after = []
  words : ∀ token ∈ tokens, token.kind ≠ .remark → ∃ piece,
    slice? line token.start token.stop = some piece ∧
      ∀ c ∈ piece, Conventions.isSplit c = false ∧ rules.isMarker c = false

namespace Token.Fits

variable {token : Token} {rules : Conventions} {line : Text}

theorem boundaries (h : token.Fits rules line) : IsBoundary line token.start ∧ IsBoundary line token.stop := by
  obtain ⟨front, piece, rest, hline, hstart, hstop, _⟩ := h
  refine ⟨⟨front, piece ++ rest, hline, hstart.symm⟩, ⟨front ++ piece, rest, ?_, ?_⟩⟩
  · simp [hline]
  · simp [hstop]

theorem remark_stop (h : token.Fits rules line) (hk : token.kind = .remark) : token.stop = width line := by
  obtain ⟨front, piece, rest, hline, _, hstop, hkind⟩ := h
  rw [if_pos hk] at hkind
  simp [hstop, hline, hkind]

theorem word (h : token.Fits rules line) (hk : token.kind ≠ .remark) :
    ∃ piece, slice? line token.start token.stop = some piece ∧ rules.IsWord piece := by
  obtain ⟨front, piece, rest, rfl, hstart, hstop, hkind⟩ := h
  rw [if_neg hk] at hkind
  exact ⟨piece, by rw [hstart, hstop, slice?_middle], hkind⟩

end Token.Fits

/-- The tokens of a line can be read from slices that never fail, and they are well formed. -/
theorem Tokenizer.tokens_wellFormed (t : Tokenizer) (line : Text) :
    t.tokensByOffsets? line = some (t.tokens line) ∧ Token.WellFormed t.rules line (t.tokens line) := by
  have horder := t.tokens_inOrder line
  have hfits := t.tokens_fit line
  refine ⟨t.tokensByOffsets?_eq line, ?_⟩
  constructor
  case bounds =>
    intro token hmem
    exact horder.bounds token.span (List.mem_map_of_mem hmem)
  case boundaries => exact fun token hmem => (hfits token hmem).boundaries
  case ordered => exact List.pairwise_map.1 horder.pairwise
  case remark_stop => exact fun token hmem => (hfits token hmem).remark_stop
  case words => exact fun token hmem => (hfits token hmem).word
  case last =>
    intro before token after htokens hkind
    have hopen := t.tokens_open line
    rw [htokens, List.pairwise_append, List.pairwise_cons] at hopen
    cases after with
    | nil => rfl
    | cons next after =>
      have hends := hopen.2.1.1 next (by simp)
      rcases hkind with hk | hk <;> simp [hk, Token.Kind.endsLine] at hends

end AsmOutline
