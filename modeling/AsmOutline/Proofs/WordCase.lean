import AsmOutline.Token.Tokenizer

/-! # Words without regard to case

Only the 26 capitals change in lower case, so that a test of characters takes no notice of
case as soon as it takes none on the capitals. From the tests of characters this passes on
to words: a keyword, a register and a numeral are found in any mixture of case.
-/
namespace AsmOutline
open Text

namespace Text

/-- The characters that change in lower case. -/
def capitals : List Char :=
  (List.range 26).map fun n => Char.ofNat ('A'.toNat + n)

/-- The characters that change in upper case. -/
def smallLetters : List Char :=
  (List.range 26).map fun n => Char.ofNat ('a'.toNat + n)

theorem mem_alphabet {first c : Char} (hlow : first.toNat ≤ c.toNat) (hhigh : c.toNat < first.toNat + 26) :
    c ∈ (List.range 26).map fun n => Char.ofNat (first.toNat + n) := by
  have hsum : first.toNat + (c.toNat - first.toNat) = c.toNat := by omega
  refine List.mem_map.2 ⟨c.toNat - first.toNat, List.mem_range.2 (by omega), ?_⟩
  rw [hsum, Char.ofNat_toNat]

theorem toLower_eq_or_mem (c : Char) : c.toLower = c ∨ c ∈ capitals := by
  by_cases h : c.val ≥ 'A'.val ∧ c.val ≤ 'Z'.val
  · have hhigh : c.toNat ≤ 'Z'.toNat := h.2
    exact .inr (mem_alphabet h.1 (Nat.lt_of_le_of_lt hhigh (by decide)))
  · left
    exact dif_neg h

theorem toUpper_of_not_isLower {c : Char} (h : c.isLower = false) : c.toUpper = c := by
  apply dif_neg
  intro hsmall
  have hlower : c.isLower = true := Bool.and_eq_true_iff.2 ⟨decide_eq_true hsmall.1, decide_eq_true hsmall.2⟩
  rw [h] at hlower
  cases hlower

theorem mem_smallLetters {c : Char} (h : c.isLower = true) : c ∈ smallLetters := by
  obtain ⟨hlow, hhigh⟩ := Bool.and_eq_true_iff.1 h
  have hlast : c.toNat ≤ 'z'.toNat := of_decide_eq_true hhigh
  exact mem_alphabet (of_decide_eq_true hlow) (Nat.lt_of_le_of_lt hlast (by decide))

theorem toLower_toUpper (c : Char) : c.toUpper.toLower = c.toLower := by
  cases hc : c.isLower with
  | false => rw [toUpper_of_not_isLower hc]
  | true =>
    have hback : smallLetters.all (fun c => c.toUpper.toLower == c.toLower) = true := rfl
    exact beq_iff_eq.1 (List.all_eq_true.1 hback c (mem_smallLetters hc))

theorem eq_or_of_toLower_eq {c d : Char} (h : c.toLower = d) : c = d ∨ c = d.toUpper := by
  rcases toLower_eq_or_mem c with hc | hc
  · exact .inl (hc.symm.trans h)
  · have hback : capitals.all (fun c => c == c.toLower.toUpper) = true := rfl
    exact .inr (h ▸ beq_iff_eq.1 (List.all_eq_true.1 hback c hc))

/-- A function of characters that gives the same for both cases of a letter. -/
def Caseless {α : Type} (f : Char → α) : Prop :=
  ∀ c, f c.toLower = f c

namespace Caseless

variable {α : Type} {f : Char → α} {p q : Char → Bool}

theorem of_capitals [DecidableEq α] (h : capitals.all (fun c => f c.toLower == f c) = true) : Caseless f := by
  intro c
  rcases toLower_eq_or_mem c with hc | hc
  · rw [hc]
  · exact beq_iff_eq.1 (List.all_eq_true.1 h c hc)

theorem comp_toLower (h : Caseless f) : f ∘ Char.toLower = f := by
  funext c
  exact h c

theorem not (h : Caseless p) : Caseless (!p ·) := by
  intro c
  simp only [h c]

theorem or (hp : Caseless p) (hq : Caseless q) : Caseless fun c => p c || q c := by
  intro c
  simp only [hp c, hq c]

end Caseless

theorem utf8Size_caseless : Caseless Char.utf8Size := .of_capitals rfl

theorem isBlank_caseless : Caseless isBlank := .of_capitals rfl

theorem toUpper_caseless : Caseless Char.toUpper := .of_capitals rfl

theorem toLower_caseless : Caseless Char.toLower := .of_capitals rfl

variable {p : Char → Bool} (s : Text)

@[simp] theorem lower_nil : lower [] = [] := rfl

@[simp] theorem lower_cons (c : Char) (cs : Text) : lower (c :: cs) = c.toLower :: lower cs := rfl

@[simp] theorem lower_append (a b : Text) : lower (a ++ b) = lower a ++ lower b :=
  List.map_append

/-- A text without letters is found in lower case only where it stands. -/
theorem eq_of_lower_eq {s word : Text} (hw : upper word = word) (h : lower s = word) : s = word := by
  induction s generalizing word with
  | nil => exact h
  | cons c cs ih =>
    subst h
    obtain ⟨hfirst, hrest⟩ := List.cons_eq_cons.1 hw
    have hc : c = c.toLower := (eq_or_of_toLower_eq rfl).elim id (·.trans hfirst)
    exact List.cons_eq_cons.2 ⟨hc, ih hrest rfl⟩

@[simp] theorem width_lower : width (lower s) = width s := by
  induction s with
  | nil => rfl
  | cons c cs ih => rw [lower_cons, width_cons, width_cons, utf8Size_caseless c, ih]

@[simp] theorem lower_lower : lower (lower s) = lower s := by
  rw [lower, lower, List.map_map, toLower_caseless.comp_toLower]

@[simp] theorem upper_lower : upper (lower s) = upper s := by
  rw [upper, lower, List.map_map, toUpper_caseless.comp_toLower, upper]

theorem takeWhile_lower (h : Caseless p) : (lower s).takeWhile p = lower (s.takeWhile p) := by
  rw [lower, List.takeWhile_map, h.comp_toLower, lower]

theorem dropWhile_lower (h : Caseless p) : (lower s).dropWhile p = lower (s.dropWhile p) := by
  rw [lower, List.dropWhile_map, h.comp_toLower, lower]

theorem filter_lower (h : Caseless p) : (lower s).filter p = lower (s.filter p) := by
  rw [lower, List.filter_map, h.comp_toLower, lower]

theorem reverse_lower : (lower s).reverse = lower s.reverse :=
  List.map_reverse.symm

theorem trim_lower : trim (lower s) = lower (trim s) := by
  simp only [trim, trimEnd, trimStart, dropWhile_lower _ isBlank_caseless, reverse_lower]

theorem upper_of_no_isLower {s : Text} (h : s.any Char.isLower = false) : upper s = s := by
  have hsame : ∀ c ∈ s, c.toUpper = id c := fun c hc =>
    toUpper_of_not_isLower (eq_false_of_ne_true (List.any_eq_false.1 h c hc))
  rw [upper, List.map_congr_left hsame, List.map_id]

@[simp] theorem lower_upper : lower (upper s) = lower s := by
  rw [lower, upper, List.map_map, lower]
  exact List.map_congr_left fun c _ => toLower_toUpper c

@[simp] theorem upper_upper : upper (upper s) = upper s := by
  rw [← upper_lower, lower_upper, upper_lower]

theorem sameLetters_iff (t : Text) : sameLetters s t = true ↔ upper s = upper t := by
  rw [sameLetters, beq_iff_eq]
  constructor
  · intro h
    rw [← upper_lower s, h, upper_lower]
  · intro h
    rw [← lower_upper s, h, lower_upper]

@[simp] theorem isOneOf_lower (words : List String) : isOneOf words (lower s) = isOneOf words s := by
  simp only [isOneOf, sameLetters, lower_lower]

end Text

theorem KeywordTable.get?_eq (table : KeywordTable) (name : Text) :
    table.get? name = table.entries[upper name]? := by
  unfold get?
  cases hsmall : name.any Char.isLower with
  | true => rfl
  | false => rw [upper_of_no_isLower hsmall]; rfl

@[simp] theorem KeywordTable.kind?_lower (table : KeywordTable) (name : Text) :
    table.kind? (lower name) = table.kind? name := by
  rw [kind?, kind?, get?_eq, get?_eq, upper_lower]

@[simp] theorem Register.isName_lower (word : Text) : isName (lower word) = isName word := by
  rw [isName, isName, upper_lower]

namespace Numeral

theorem digitValue_caseless : Caseless digitValue := .of_capitals rfl

theorem isGroupMark_caseless : Caseless isGroupMark := .of_capitals rfl

theorem positional_lower (base value : Nat) (digits : Text) :
    positional base value (lower digits) = positional base value digits := by
  induction digits generalizing value with
  | nil => rfl
  | cons c cs ih => simp only [lower_cons, positional, digitIn, digitValue_caseless c, ih]

theorem readDigits_lower (base : Nat) (digits : Text) : readDigits base (lower digits) = readDigits base digits := by
  cases digits with
  | nil => rfl
  | cons c cs =>
    have hdigits := positional_lower base 0 (c :: cs)
    simp only [lower_cons] at hdigits
    simp [readDigits, hdigits]

theorem take_of_lower_eq {s : Text} (h : lower (s.take 2) = ['0', 'x']) :
    ∃ rest, s = '0' :: 'x' :: rest ∨ s = '0' :: 'X' :: rest := by
  match s, h with
  | [c], h => simp at h
  | c :: d :: rest, h =>
    simp only [List.take_succ_cons, List.take_zero, lower_cons, lower_nil, List.cons.injEq, and_true] at h
    have hc : c = '0' := (eq_or_of_toLower_eq h.1).elim id id
    rcases eq_or_of_toLower_eq h.2 with hd | hd
    · exact ⟨rest, .inl (by rw [hc, hd])⟩
    · exact ⟨rest, .inr (by rw [hc, hd]; rfl)⟩

/-- The prefix and the suffix of a hexadecimal numeral, each in one form for both cases. -/
theorem readPlain_eq (s : Text) : readPlain s =
    if lower (s.take 2) = ['0', 'x'] then readDigits 16 (s.drop 2)
    else if s.getLast?.map Char.toLower = some 'h' then readDigits 16 s.dropLast
    else readDigits 10 s := by
  unfold readPlain
  split
  · exact (if_pos rfl).symm
  · exact (if_pos rfl).symm
  · next hsmall hcapital =>
    have hplain : lower (s.take 2) ≠ ['0', 'x'] := by
      intro h
      obtain ⟨rest, hs | hs⟩ := take_of_lower_eq h
      · exact hsmall rest hs
      · exact hcapital rest hs
    rw [if_neg hplain]
    split
    · next hlast => rw [hlast]; rfl
    · next hlast => rw [hlast]; rfl
    · next hsmall hcapital =>
      rw [if_neg]
      intro h
      obtain ⟨c, hlast, hc⟩ := Option.map_eq_some_iff.1 h
      rcases eq_or_of_toLower_eq hc with rfl | hc
      · exact hsmall hlast
      · exact hcapital (hlast.trans (congrArg some hc))

theorem readPlain_lower (s : Text) : readPlain (lower s) = readPlain s := by
  have htake : lower ((lower s).take 2) = lower (s.take 2) := by
    rw [lower, lower, ← List.map_take, ← lower, ← lower, lower_lower]
  have hlast : (lower s).getLast?.map Char.toLower = s.getLast?.map Char.toLower := by
    rw [lower, List.getLast?_map, Option.map_map, toLower_caseless.comp_toLower]
  have hdrop : (lower s).drop 2 = lower (s.drop 2) := List.map_drop.symm
  have hinit : (lower s).dropLast = lower s.dropLast := List.map_dropLast.symm
  rw [readPlain_eq, readPlain_eq, htake, hlast, hdrop, hinit]
  simp only [readDigits_lower]

@[simp] theorem read_lower (word : Text) : read (lower word) = read word := by
  rw [read, read, trim_lower, filter_lower _ isGroupMark_caseless.not, readPlain_lower]

end Numeral

namespace Tokenizer

@[simp] theorem classify_lower (t : Tokenizer) (word : Text) : t.classify (lower word) = t.classify word := by
  simp only [classify, KeywordTable.kind?_lower, Register.isName_lower]

@[simp] theorem targetKind_lower (t : Tokenizer) (word : Text) :
    t.targetKind (lower word) = t.targetKind word := by
  rw [targetKind, targetKind, classify_lower]

end Tokenizer
end AsmOutline
