import AsmOutline.Proofs.DeclarationFolds
import AsmOutline.Proofs.RegionMatching
import AsmOutline.Proofs.TextBytes
import AsmOutline.Proofs.TokenShape
import AsmOutline.Proofs.WordCase

/-! # The role of a line by offsets

A tag is looked for in a copy of the line in lower case, and the offset found there is used in the
line itself: to go on behind the tag, to count the bytes that are digits, and to cut these out. A
directive is cut out by the span of its token. Each of these slices is taken by two byte offsets and
fails when one of them is no boundary. None of them does, and the role read so is the role of the line.
-/
namespace AsmOutline
open Text

namespace Text

/-- A word stands in a line at an offset, in any letter case. -/
def StandsAt (word line : Text) (offset : Nat) : Prop :=
  ∃ front found rest, line = front ++ (found ++ rest) ∧ lower found = lower word ∧ width front = offset

theorem width_add_of_lower_eq (front : Text) {found word : Text} (h : lower found = lower word) :
    width front + width word = width (front ++ found) := by
  rw [width_append, ← width_lower found, h, width_lower]

theorem isAscii_of_isDigit {c : Char} (h : c.isDigit = true) : IsAscii c := by
  have hle : c.val ≤ 57 := (Bool.and_eq_true_iff.1 h).2 |> of_decide_eq_true
  exact Nat.lt_of_le_of_lt hle (by decide)

theorem isDigit_caseless : Caseless Char.isDigit := .of_capitals rfl

/-- The number of digits at the front of a text, counted in bytes. -/
def digitCount (s : Text) : Nat :=
  ((ofBytes (utf8 s)).takeWhile Char.isDigit).length

theorem digitCount_eq (s : Text) : digitCount s = width (s.takeWhile Char.isDigit) := by
  have hdigits : ∀ c ∈ s.takeWhile Char.isDigit, IsAscii c :=
    fun c hc => isAscii_of_isDigit (List.all_eq_true.1 List.all_takeWhile c hc)
  rw [digitCount, takeWhile_ofBytes (fun _ => isAscii_of_isDigit), width_of_isAscii hdigits]

end Text

namespace FoldRules

variable {rules : FoldRules} {t : Tokenizer} {tag word line : Text} {place : Nat × Text}

theorem find?_spec (h : find? word line = some place) :
    ∃ front, line = front ++ (word ++ place.2) ∧ width front = place.1 ∧
      ∀ other rest, line = other ++ (word ++ rest) → width front ≤ width other := by
  induction line generalizing place with
  | nil => cases h
  | cons c cs ih =>
    rw [find?] at h
    by_cases hp : word.isPrefixOf (c :: cs) = true
    · rw [if_pos hp] at h
      cases h
      refine ⟨[], ?_, rfl, fun _ _ _ => Nat.zero_le _⟩
      exact List.prefix_iff_eq_append.1 (List.isPrefixOf_iff_prefix.1 hp) |>.symm
    · rw [if_neg hp] at h
      obtain ⟨later, hlater, rfl⟩ := Option.map_eq_some_iff.1 h
      obtain ⟨front, hline, hwidth, hfirst⟩ := ih hlater
      refine ⟨c :: front, by rw [hline]; rfl, by rw [width_cons, hwidth], ?_⟩
      intro other rest hother
      cases other with
      | nil => exact absurd (List.isPrefixOf_iff_prefix.2 ⟨rest, hother.symm⟩) hp
      | cons d other =>
        obtain ⟨rfl, hcs⟩ := List.cons.inj hother
        exact Nat.add_le_add_left (hfirst other rest hcs) _

/-- A tag found in lower case, cut out of the line itself. -/
theorem find?_lower_spec (h : find? (lower tag) (lower line) = some place) :
    ∃ front found rest, line = front ++ (found ++ rest) ∧ lower found = lower tag ∧ lower rest = place.2 ∧
      width front = place.1 ∧ ∀ offset, StandsAt tag line offset → place.1 ≤ offset := by
  obtain ⟨front, hline, hwidth, hfirst⟩ := find?_spec h
  obtain ⟨front, tail, rfl, rfl, htail⟩ := List.map_eq_append_iff.1 hline
  obtain ⟨found, rest, rfl, hfound, hrest⟩ := List.map_eq_append_iff.1 htail
  rw [← lower, width_lower] at hwidth
  refine ⟨front, found, rest, rfl, hfound, hrest, hwidth, ?_⟩
  rintro offset ⟨other, again, after, hother, hagain, rfl⟩
  have hle : width (lower front) ≤ width (lower other) :=
    hfirst _ (lower after) (by rw [hother, lower_append, lower_append, hagain])
  rwa [width_lower, width_lower, hwidth] at hle

theorem levelHint_lower (digits : Text) : levelHint (lower digits) = levelHint digits := by
  rw [levelHint, levelHint, Numeral.positional_lower]
  cases digits <;> rfl

/-- The role that a tag gives to a line. -/
def tagRoleAt? (isBegin : Bool) (tag line : Text) : Option (Option LineRole) :=
  if tag.isEmpty then some none
  else
    match find? (lower tag) (lower line) with
    | none => some none
    | some place => do
      let after := place.1 + width tag
      let tail ← slice? line after (width line)
      let stop := after + digitCount tail
      let digits ← slice? line after stop
      let level := levelHint digits
      some (some (if isBegin then .opens level place.1 stop else .closes level))

theorem tagRoleAt?_eq (isBegin : Bool) (tag line : Text) :
    tagRoleAt? isBegin tag line = some (tagRole? isBegin (lower tag) (lower line)) := by
  unfold tagRoleAt? tagRole?
  have hempty : (lower tag).isEmpty = tag.isEmpty := by cases tag <;> rfl
  rw [hempty]
  by_cases ht : tag.isEmpty = true
  · rw [if_pos ht, if_pos ht]
  · rw [if_neg ht, if_neg ht]
    cases hf : find? (lower tag) (lower line) with
    | none => rfl
    | some place =>
      obtain ⟨front, found, rest, rfl, hfound, hrest, hwidth, _⟩ := find?_lower_spec hf
      have hafter : place.1 + width tag = width (front ++ found) := by
        rw [← hwidth, width_add_of_lower_eq front hfound]
      have htail := slice?_rest (front ++ found) rest
      have hdigits := slice?_middle (front ++ found) (rest.takeWhile Char.isDigit) (rest.dropWhile Char.isDigit)
      rw [List.takeWhile_append_dropWhile, List.append_assoc] at hdigits
      rw [List.append_assoc] at htail
      have hsame : place.2.takeWhile Char.isDigit = lower (rest.takeWhile Char.isDigit) := by
        rw [← hrest, takeWhile_lower _ isDigit_caseless]
      simp only [hafter, htail, hdigits, Option.bind_eq_bind, Option.bind_some, digitCount_eq, Option.map_some,
        hsame, levelHint_lower, width_lower]

/-- The role that the tags give to a line. The second tag is asked when the first gives none. -/
def byTagsAt? (rules : FoldRules) (line : Text) : Option (Option LineRole) :=
  let opening := tagRoleAt? true rules.beginTag line
  let closing := tagRoleAt? false rules.endTag line
  let inTurn (first second : Option (Option LineRole)) :=
    first.bind fun role => if role.isSome then some role else second
  if width rules.endTag ≤ width rules.beginTag then inTurn opening closing else inTurn closing opening

theorem byTagsAt?_eq (rules : FoldRules) (line : Text) : rules.byTagsAt? line = some (rules.byTags? line) := by
  have hturn (a b : Option LineRole) : (if a.isSome then some a else some b) = some (a.or b) := by
    cases a <;> rfl
  simp only [byTagsAt?, tagRoleAt?_eq, Option.bind_some, hturn]
  exact (apply_ite some _ _ _).symm

/-- The role that the directives among the tokens give to a line. -/
def byDirectivesAt? (rules : FoldRules) (line : Text) : List Token → Option LineRole
  | [] => some .plain
  | token :: rest =>
    if token.kind ≠ .keyword .directive then rules.byDirectivesAt? line rest
    else do
      let word ← slice? line token.start token.stop
      if rules.dialect.opens word then some (.opens none token.start token.stop)
      else if rules.dialect.closes word then some (.closes none)
      else rules.byDirectivesAt? line rest

theorem byDirectivesAt?_eq {tokens : List Token} (h : ∀ token ∈ tokens, token.Fits t.rules line) :
    rules.byDirectivesAt? line tokens = some (rules.byDirectives line tokens) := by
  induction tokens with
  | nil => rfl
  | cons token rest ih =>
    obtain ⟨hfits, hrest⟩ := List.forall_mem_cons.1 h
    unfold byDirectivesAt? byDirectives
    dsimp only
    by_cases hk : token.kind = .keyword .directive
    · obtain ⟨word, hword, _⟩ := hfits.word (by rw [hk]; decide)
      have htext : token.text line = word := by rw [Token.text, hword, Option.getD_some]
      rw [if_neg (not_not.2 hk), if_neg (not_not.2 hk), hword, htext, ih hrest]
      simp only [Option.bind_eq_bind, Option.bind_some, apply_ite some]
    · rw [if_pos hk, if_pos hk, ih hrest]

/-- The role of a line. -/
def roleAt? (rules : FoldRules) (t : Tokenizer) (line : Text) : Option LineRole := do
  match ← rules.byTagsAt? line with
  | some role => some role
  | none =>
    if t.rules.isRemarkOnly line then some (.remark ((t.rules.remarkPos line).getD 0))
    else
      let tokens ← t.tokensByOffsets? line
      rules.byDirectivesAt? line tokens

theorem roleAt?_eq (rules : FoldRules) (t : Tokenizer) (line : Text) :
    rules.roleAt? t line = some (rules.role t line) := by
  unfold roleAt? role
  rw [byTagsAt?_eq, Option.bind_eq_bind, Option.bind_some]
  cases rules.byTags? line with
  | some role => rfl
  | none =>
    dsimp only
    rw [t.tokensByOffsets?_eq, Option.bind_eq_bind, Option.bind_some, byDirectivesAt?_eq (t.tokens_fit line)]
    exact (apply_ite some _ _ _).symm

end FoldRules

/-! ## Where a region may start -/

/-- What opens a region on a line with this role: a tag with the digits behind it, a directive, or
the place of a remark. -/
def LineRole.head? : LineRole → Option Span
  | .opens _ offset previewOffset => some ⟨offset, previewOffset⟩
  | .remark offset => some ⟨offset, offset⟩
  | .closes _ | .plain => none

/-- The span covers a piece of the line. -/
def Span.Cuts (span : Span) (line : Text) : Prop :=
  ∃ front piece rest, line = front ++ (piece ++ rest) ∧ span.start = width front ∧
    span.stop = width front + width piece

namespace Span.Cuts

variable {span : Span} {line : Text}

theorem le (h : span.Cuts line) : span.start ≤ span.stop ∧ span.stop ≤ width line := by
  obtain ⟨front, piece, rest, rfl, hstart, hstop⟩ := h
  simp only [hstart, hstop, width_append]
  omega

theorem boundaries (h : span.Cuts line) : IsBoundary line span.start ∧ IsBoundary line span.stop := by
  obtain ⟨front, piece, rest, rfl, hstart, hstop⟩ := h
  constructor
  · exact ⟨front, piece ++ rest, rfl, hstart.symm⟩
  · exact ⟨front ++ piece, rest, (List.append_assoc _ _ _).symm, by rw [width_append, hstop]⟩

end Span.Cuts

/-- A begin tag and all the digits behind it, where the tag stands in the line for the first time. -/
structure Span.IsTag (span : Span) (tag line : Text) : Prop where
  ne_nil : tag ≠ []
  stands : StandsAt tag line span.start
  first : ∀ offset, StandsAt tag line offset → span.start ≤ offset
  digits : ∃ rest, dropBytes? line (span.start + width tag) = some rest ∧
    span.stop = span.start + width tag + width (rest.takeWhile Char.isDigit)

theorem Span.IsTag.cuts {span : Span} {tag line : Text} (h : span.IsTag tag line) : span.Cuts line := by
  obtain ⟨front, found, rest, rfl, hfound, hstart⟩ := h.stands
  obtain ⟨after, hafter, hstop⟩ := h.digits
  have hwidth : span.start + width tag = width (front ++ found) := by
    rw [← hstart, width_add_of_lower_eq front hfound]
  rw [hwidth, ← List.append_assoc, dropBytes?_width_append, Option.some_inj] at hafter
  subst hafter
  refine ⟨front, found ++ rest.takeWhile Char.isDigit, rest.dropWhile Char.isDigit, ?_, hstart.symm, ?_⟩
  · rw [List.append_assoc, List.takeWhile_append_dropWhile]
  · rw [hstop, hwidth, width_append, width_append, Nat.add_assoc]

namespace FoldRules

variable {rules : FoldRules} {t : Tokenizer} {tag line : Text} {role : LineRole} {span : Span}

theorem isTag_of_tagRole? (h : tagRole? true (lower tag) (lower line) = some role)
    (hs : role.head? = some span) : span.IsTag tag line := by
  obtain ⟨hne, hrole⟩ := Option.ite_none_left_eq_some.1 h
  obtain ⟨place, hplace, rfl⟩ := Option.map_eq_some_iff.1 hrole
  cases hs
  obtain ⟨front, found, rest, rfl, hfound, hrest, hwidth, hfirst⟩ := find?_lower_spec hplace
  constructor
  case ne_nil =>
    rintro rfl
    exact hne rfl
  case stands => exact ⟨front, found, rest, rfl, hfound, hwidth⟩
  case first => exact hfirst
  case digits =>
    refine ⟨rest, ?_, ?_⟩
    · rw [← hwidth, width_add_of_lower_eq front hfound, ← List.append_assoc, dropBytes?_width_append]
    · dsimp only
      rw [← hrest, takeWhile_lower _ isDigit_caseless, width_lower, width_lower]

theorem head?_of_endTag (h : tagRole? false tag line = some role) : role.head? = none := by
  obtain ⟨_, hrole⟩ := Option.ite_none_left_eq_some.1 h
  obtain ⟨place, _, rfl⟩ := Option.map_eq_some_iff.1 hrole
  rfl

theorem isTag_of_byTags? (h : rules.byTags? line = some role) (hs : role.head? = some span) :
    span.IsTag rules.beginTag line := by
  have hcases : tagRole? true (lower rules.beginTag) (lower line) = some role ∨
      tagRole? false (lower rules.endTag) (lower line) = some role := by
    unfold byTags? at h
    dsimp only at h
    split_ifs at h
    · exact (Option.or_eq_some_iff.1 h).imp_right And.right
    · exact (Option.or_eq_some_iff.1 h).symm.imp_left And.right
  rcases hcases with hbegin | hend
  · exact isTag_of_tagRole? hbegin hs
  · rw [head?_of_endTag hend] at hs
    cases hs

example : (byTags? {} "é #REGION12 #region".toList).bind LineRole.head? = some ⟨3, 12⟩ := by decide +kernel

theorem mem_of_byDirectives {tokens : List Token} (hs : (rules.byDirectives line tokens).head? = some span) :
    ∃ token ∈ tokens, token.span = span := by
  induction tokens with
  | nil => cases hs
  | cons token rest ih =>
    have hrest (h : (rules.byDirectives line rest).head? = some span) :
        ∃ later ∈ token :: rest, later.span = span :=
      (ih h).imp fun _ hlater => hlater.imp_left (List.mem_cons_of_mem _)
    unfold byDirectives at hs
    dsimp only at hs
    split_ifs at hs
    · exact hrest hs
    · cases hs
      exact ⟨token, List.mem_cons_self, rfl⟩
    · cases hs
    · exact hrest hs

theorem isTag_of_role (hs : (rules.role t line).head? = some span) (htag : ¬rules.Untagged line) :
    span.IsTag rules.beginTag line := by
  obtain ⟨role, hrole⟩ := Option.ne_none_iff_exists'.1 (mt byTags?_eq_none_iff.1 htag)
  unfold FoldRules.role at hs
  rw [hrole] at hs
  exact isTag_of_byTags? hrole hs

/-- Whatever opens a region is a piece of its line. -/
theorem cuts_of_role (hs : (rules.role t line).head? = some span) : span.Cuts line := by
  by_cases htag : rules.Untagged line
  · unfold role at hs
    rw [byTags?_eq_none_iff.2 htag] at hs
    dsimp only at hs
    split_ifs at hs with honly
    · obtain ⟨marker, hmarker⟩ := Option.isSome_iff_exists.1 (Conventions.remarkPos_of_isRemarkOnly honly)
      obtain ⟨front, c, rest, hline, _, _, hwidth⟩ := Conventions.remarkPos_eq_some_iff.1 hmarker
      rw [hmarker] at hs
      cases hs
      exact ⟨front, [], c :: rest, hline, hwidth.symm, hwidth.symm⟩
    · obtain ⟨token, hmem, rfl⟩ := mem_of_byDirectives hs
      obtain ⟨front, piece, rest, hline, hstart, hstop, _⟩ := t.tokens_fit line token hmem
      exact ⟨front, piece, rest, hline, hstart, hstop⟩
  · exact (isTag_of_role hs htag).cuts

end FoldRules
end AsmOutline
