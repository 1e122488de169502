import AsmOutline.Proofs.WordCase
import Mathlib.Algebra.Order.Ring.Nat
import Mathlib.Data.List.TakeWhile
import Mathlib.Tactic.SplitIfs

/-! # What a numeral may look like

A value is written by its digits in base ten, by hexadecimal digits after `0x`, or by such digits
before `h`. The digits stand in any letter case and after any number of zeros, group marks stand
anywhere in the numeral, and blanks only around it. A token is read exactly when it is written
so for a value of at most 64 bits, and then the value read is that one.
-/
namespace AsmOutline
open Text

namespace Text

theorem trim_surrounded {front s back : Text} (hf : ∀ c ∈ front, isBlank c = true)
    (hs : ∀ c ∈ s, isBlank c = false) (hb : ∀ c ∈ back, isBlank c = true) : trim (front ++ s ++ back) = s := by
  have hstart : trimStart (front ++ (s ++ back)) = trimStart (s ++ back) := List.dropWhile_append_of_pos hf
  cases s with
  | nil =>
    have hback : trimStart back = [] := List.dropWhile_eq_nil_iff.2 hb
    rw [trim, List.append_assoc, hstart, List.nil_append, hback]
    rfl
  | cons c s =>
    have hfirst : trimStart (c :: s ++ back) = c :: s ++ back :=
      List.dropWhile_cons_of_neg (by simp [hs c List.mem_cons_self])
    have hlast : (c :: s).reverse.dropWhile isBlank = (c :: s).reverse := by
      apply List.dropWhile_eq_self_iff.2
      intro hl
      simpa using hs _ (List.mem_reverse.1 (List.getElem_mem hl))
    rw [trim, List.append_assoc, hstart, hfirst, trimEnd, List.reverse_append,
      List.dropWhile_append_of_pos (by simpa using hb), hlast, List.reverse_reverse]

theorem exists_surrounded (s : Text) : ∃ front back, s = front ++ trim s ++ back ∧
    (∀ c ∈ front, isBlank c = true) ∧ ∀ c ∈ back, isBlank c = true := by
  have hfront : s.takeWhile isBlank ++ trimStart s = s := List.takeWhile_append_dropWhile
  have hback : trim s ++ ((trimStart s).reverse.takeWhile isBlank).reverse = trimStart s := by
    rw [trim, trimEnd, ← List.reverse_append, List.takeWhile_append_dropWhile, List.reverse_reverse]
  refine ⟨s.takeWhile isBlank, ((trimStart s).reverse.takeWhile isBlank).reverse, ?_, ?_, ?_⟩
  · rw [List.append_assoc, hback, hfront]
  · exact List.all_eq_true.1 List.all_takeWhile
  · intro c hc
    exact List.all_eq_true.1 List.all_takeWhile c (List.mem_reverse.1 hc)

end Text

namespace Numeral

/-- The digits of a value in a base, in any letter case and after any number of zeros. -/
def Digits (base value : Nat) (digits : Text) : Prop :=
  ∃ zeros, lower digits = List.replicate zeros '0' ++ base.toDigits value

/-- A numeral without group marks. -/
inductive Plain (value : Nat) : Text → Prop
  | decimal {digits : Text} (h : Digits 10 value digits) : Plain value digits
  | prefixed {digits : Text} {x : Char} (hx : x = 'x' ∨ x = 'X') (h : Digits 16 value digits) :
    Plain value ('0' :: x :: digits)
  | suffixed {digits : Text} {x : Char} (hx : x = 'h' ∨ x = 'H') (h : Digits 16 value digits) :
    Plain value (digits ++ [x])

/-- The second text is the first one with group marks put in at any places. -/
inductive Grouped : Text → Text → Prop
  | nil : Grouped [] []
  | mark {plain numeral : Text} {c : Char} (hc : c = '_' ∨ c = '.') (h : Grouped plain numeral) :
    Grouped plain (c :: numeral)
  | keep {plain numeral : Text} (c : Char) (h : Grouped plain numeral) : Grouped (c :: plain) (c :: numeral)

/-- A token that writes a value: a numeral with blanks around it. -/
def Writes (value : Nat) (token : Text) : Prop :=
  ∃ front plain numeral back, token = front ++ numeral ++ back ∧ (∀ c ∈ front, isBlank c = true) ∧
    (∀ c ∈ back, isBlank c = true) ∧ Grouped plain numeral ∧ Plain value plain

section Digits

variable {base value digit : Nat} {c : Char} {digits : Text}

theorem digitValue_digitChar (h : digit < 16) : digitValue digit.digitChar = some digit := by
  have hall : ∀ d < 16, digitValue d.digitChar = some d := by decide
  exact hall digit h

theorem toLower_of_digitValue (h : digitValue c = some digit) (hd : digit < 16) :
    c.toLower = digit.digitChar := by
  have hall : ∀ n < 128, ∀ d ∈ digitValue (Char.ofNat n), d < 16 → (Char.ofNat n).toLower = d.digitChar := by
    decide
  have hascii : c.toNat < 128 := by
    unfold digitValue at h
    split_ifs at h with hdecimal hsmall hcapital
    · exact Nat.lt_of_le_of_lt hdecimal.2 (by decide)
    · exact Nat.lt_of_le_of_lt hsmall.2 (by decide)
    · exact Nat.lt_of_le_of_lt hcapital.2 (by decide)
  rw [← Char.ofNat_toNat c] at h ⊢
  exact hall c.toNat hascii digit h hd

/-- A character is a digit when its lower case is the one that the digit is printed by. -/
theorem digitIn_eq_some_iff (hb : base ≤ 16) :
    digitIn base c = some digit ↔ digit < base ∧ c.toLower = digit.digitChar := by
  rw [digitIn, Option.filter_eq_some_iff, decide_eq_true_eq]
  constructor
  · rintro ⟨hv, hd⟩
    exact ⟨hd, toLower_of_digitValue hv (Nat.lt_of_lt_of_le hd hb)⟩
  · rintro ⟨hd, hc⟩
    rw [← digitValue_caseless c, hc]
    exact ⟨digitValue_digitChar (Nat.lt_of_lt_of_le hd hb), hd⟩

theorem positional_append (base value : Nat) (s t : Text) :
    positional base value (s ++ t) = (positional base value s).bind (positional base · t) := by
  induction s generalizing value with
  | nil => rfl
  | cons c s ih => simp only [List.cons_append, positional, ih, Option.bind_assoc]

theorem positional_singleton (hb : base ≤ 16) (hd : digit < base) (value : Nat) :
    positional base value [digit.digitChar] = some (value * base + digit) := by
  have hlower : digit.digitChar.toLower = digit.digitChar :=
    toLower_of_digitValue (digitValue_digitChar (Nat.lt_of_lt_of_le hd hb)) (Nat.lt_of_lt_of_le hd hb)
  rw [positional, (digitIn_eq_some_iff hb).2 ⟨hd, hlower⟩]
  rfl

theorem positional_toDigits (h1 : 1 < base) (hb : base ≤ 16) (value : Nat) :
    positional base 0 (base.toDigits value) = some value := by
  induction value using Nat.strong_induction_on with
  | _ value ih =>
    rw [Nat.toDigits_eq_if h1]
    split_ifs with hv
    · rw [positional_singleton hb hv, Nat.zero_mul, Nat.zero_add]
    · have hpos : 0 < value := by omega
      rw [positional_append, ih _ (Nat.div_lt_self hpos h1), Option.bind_some,
        positional_singleton hb (Nat.mod_lt _ (by omega)), Nat.div_add_mod']

theorem positional_zeros (h1 : 1 < base) (hb : base ≤ 16) (zeros : Nat) (digits : Text) :
    positional base 0 (List.replicate zeros '0' ++ digits) = positional base 0 digits := by
  induction zeros with
  | zero => rfl
  | succ zeros ih =>
    have hzero : digitIn base '0' = some 0 := (digitIn_eq_some_iff hb).2 ⟨by omega, rfl⟩
    rw [List.replicate_succ, List.cons_append, positional, hzero, Option.bind_some, Nat.zero_mul, ih]

theorem Digits.positional (h1 : 1 < base) (hb : base ≤ 16) (h : Digits base value digits) :
    positional base 0 digits = some value := by
  obtain ⟨zeros, hdigits⟩ := h
  rw [← positional_lower, hdigits, positional_zeros h1 hb, positional_toDigits h1 hb]

/-- After a digit that is not zero the digits read so far are those of their value. -/
theorem toDigits_append_of_positional {start : Nat} (h1 : 1 < base) (hb : base ≤ 16) (hs : 0 < start)
    (h : Numeral.positional base start digits = some value) :
    base.toDigits start ++ lower digits = base.toDigits value := by
  induction digits generalizing start with
  | nil =>
    obtain rfl := Option.some.inj h
    rw [lower_nil, List.append_nil]
  | cons c cs ih =>
    obtain ⟨digit, hdigit, hrest⟩ := Option.bind_eq_some_iff.1 h
    obtain ⟨hd, hc⟩ := (digitIn_eq_some_iff hb).1 hdigit
    have hnext : base.toDigits start ++ [digit.digitChar] = base.toDigits (start * base + digit) := by
      rw [← Nat.toDigits_of_lt_base hd, Nat.toDigits_append_toDigits h1 hs hd, Nat.mul_comm]
    have hpos : 0 < start * base + digit := Nat.add_pos_left (Nat.mul_pos hs (by omega)) _
    rw [lower_cons, hc, List.append_cons, hnext, ih hpos hrest]

theorem digits_of_positional (h1 : 1 < base) (hb : base ≤ 16) (hne : digits ≠ [])
    (h : Numeral.positional base 0 digits = some value) : Digits base value digits := by
  induction digits with
  | nil => exact absurd rfl hne
  | cons c cs ih =>
    obtain ⟨digit, hdigit, hrest⟩ := Option.bind_eq_some_iff.1 h
    obtain ⟨hd, hc⟩ := (digitIn_eq_some_iff hb).1 hdigit
    rw [Nat.zero_mul, Nat.zero_add] at hrest
    rcases Nat.eq_zero_or_pos digit with rfl | hpos
    · cases cs with
      | nil =>
        obtain rfl := Option.some.inj hrest
        exact ⟨0, by rw [lower_cons, hc, Nat.toDigits_zero]; rfl⟩
      | cons next cs =>
        obtain ⟨zeros, hzeros⟩ := ih (List.cons_ne_nil next cs) hrest
        exact ⟨zeros + 1, by rw [lower_cons, hc, hzeros]; rfl⟩
    · refine ⟨0, ?_⟩
      have hall := toDigits_append_of_positional h1 hb hpos hrest
      rw [Nat.toDigits_of_lt_base hd] at hall
      rw [lower_cons, hc]
      exact hall

theorem Digits.ne_nil (h : Digits base value digits) : digits ≠ [] := by
  rintro rfl
  obtain ⟨zeros, hdigits⟩ := h
  exact Nat.toDigits_ne_nil (List.append_eq_nil_iff.1 hdigits.symm).2

/-- Leading zeros do not count: what is too large is told by its value. -/
theorem Digits.readDigits (h1 : 1 < base) (hb : base ≤ 16) (h : Digits base value digits) :
    readDigits base digits = if value < 2 ^ 64 then some value else none := by
  rw [Numeral.readDigits, if_neg (by simpa using h.ne_nil), h.positional h1 hb, Option.filter_some]
  simp only [decide_eq_true_eq]
  rfl

theorem digits_of_readDigits (h1 : 1 < base) (hb : base ≤ 16)
    (h : Numeral.readDigits base digits = some value) : Digits base value digits ∧ value < 2 ^ 64 := by
  by_cases hne : digits = []
  · subst hne
    cases h
  · rw [Numeral.readDigits, if_neg (by simpa using hne), Option.filter_eq_some_iff, decide_eq_true_eq] at h
    exact ⟨digits_of_positional h1 hb hne h.1, h.2⟩

/-- What is printed for a digit. -/
theorem exists_digit_of_mem (h1 : 1 < base) (hb : base ≤ 16) (h : Digits base value digits) (hc : c ∈ digits) :
    ∃ digit < base, c.toLower = digit.digitChar := by
  obtain ⟨before, after, rfl⟩ := List.append_of_mem hc
  have hread := h.positional h1 hb
  rw [positional_append] at hread
  obtain ⟨start, _, hread⟩ := Option.bind_eq_some_iff.1 hread
  obtain ⟨digit, hdigit, _⟩ := Option.bind_eq_some_iff.1 hread
  exact ⟨digit, (digitIn_eq_some_iff hb).1 hdigit⟩

end Digits

section Plain

variable {value : Nat} {c : Char} {s : Text}

/-- What a numeral without group marks is made of, in lower case. -/
def alphabet : List Char :=
  "0123456789abcdefhx".toList

theorem digitChar_mem_alphabet {digit : Nat} (h : digit < 16) : digit.digitChar ∈ alphabet := by
  have hall : ∀ d < 16, d.digitChar ∈ alphabet := by decide
  exact hall digit h

theorem digitChar_ne_letter {digit : Nat} (h : digit < 16) : digit.digitChar ≠ 'x' ∧ digit.digitChar ≠ 'h' := by
  have hall : ∀ d < 16, d.digitChar ≠ 'x' ∧ d.digitChar ≠ 'h' := by decide
  exact hall digit h

theorem Plain.toLower_mem (h : Plain value s) (hc : c ∈ s) : c.toLower ∈ alphabet := by
  have hdigit {base : Nat} {digits : Text} (h1 : 1 < base) (hb : base ≤ 16) (hd : Digits base value digits)
      (hm : c ∈ digits) : c.toLower ∈ alphabet := by
    obtain ⟨digit, hlt, hlower⟩ := exists_digit_of_mem h1 hb hd hm
    rw [hlower]
    exact digitChar_mem_alphabet (Nat.lt_of_lt_of_le hlt hb)
  cases h with
  | decimal hd => exact hdigit (by decide) (by decide) hd hc
  | prefixed hx hd =>
    rcases List.mem_cons.1 hc with rfl | hc
    · decide
    rcases List.mem_cons.1 hc with rfl | hc
    · rcases hx with rfl | rfl <;> decide
    · exact hdigit (by decide) (by decide) hd hc
  | suffixed hx hd =>
    rcases List.mem_append.1 hc with hc | hc
    · exact hdigit (by decide) (by decide) hd hc
    · obtain rfl := List.mem_singleton.1 hc
      rcases hx with rfl | rfl <;> decide

/-- A test that takes no notice of case and fails on the alphabet fails on every numeral. -/
theorem Plain.forall_not {p : Char → Bool} (h : Plain value s) (hp : Caseless p)
    (hnone : alphabet.any p = false) : ∀ c ∈ s, p c = false := by
  intro c hc
  rw [← hp c]
  exact Bool.eq_false_iff.2 (List.any_eq_false.1 hnone _ (h.toLower_mem hc))

theorem Plain.not_blank (h : Plain value s) : ∀ c ∈ s, isBlank c = false :=
  h.forall_not isBlank_caseless (by decide)

theorem Plain.not_mark (h : Plain value s) : ∀ c ∈ s, isGroupMark c = false :=
  h.forall_not isGroupMark_caseless (by decide)

theorem lower_take_ne (h : ∀ c ∈ s, c.toLower ≠ 'x') : lower (s.take 2) ≠ ['0', 'x'] := by
  intro heq
  have hx : 'x' ∈ lower (s.take 2) := by simp [heq]
  obtain ⟨c, hc, hlower⟩ := List.mem_map.1 hx
  exact h c (List.mem_of_mem_take hc) hlower

theorem Plain.readPlain (h : Plain value s) :
    readPlain s = if value < 2 ^ 64 then some value else none := by
  cases h with
  | decimal hd =>
    have hdigits : ∀ c ∈ s, c.toLower ≠ 'x' ∧ c.toLower ≠ 'h' := by
      intro c hc
      obtain ⟨digit, hlt, hlower⟩ := exists_digit_of_mem (by decide) (by decide) hd hc
      rw [hlower]
      exact digitChar_ne_letter (by omega)
    have hlast : s.getLast?.map Char.toLower ≠ some 'h' := by
      intro hh
      obtain ⟨c, hc, hlower⟩ := Option.map_eq_some_iff.1 hh
      exact (hdigits c (List.mem_of_getLast? hc)).2 hlower
    rw [readPlain_eq, if_neg (lower_take_ne fun c hc => (hdigits c hc).1), if_neg hlast]
    exact hd.readDigits (by decide) (by decide)
  | prefixed hx hd =>
    have hread := hd.readDigits (by decide) (by decide)
    rcases hx with rfl | rfl <;> exact hread
  | @suffixed digits x hx hd =>
    have hletter : x.toLower = 'h' := by rcases hx with rfl | rfl <;> decide
    have hfront : ∀ c ∈ digits ++ [x], c.toLower ≠ 'x' := by
      intro c hc
      rcases List.mem_append.1 hc with hc | hc
      · obtain ⟨digit, hlt, hlower⟩ := exists_digit_of_mem (by decide) (by decide) hd hc
        rw [hlower]
        exact (digitChar_ne_letter hlt).1
      · rw [List.mem_singleton.1 hc, hletter]
        decide
    have hlast : (digits ++ [x]).getLast?.map Char.toLower = some 'h' := by simp [hletter]
    rw [readPlain_eq, if_neg (lower_take_ne hfront), if_pos hlast, List.dropLast_concat]
    exact hd.readDigits (by decide) (by decide)

theorem plain_of_readPlain (h : Numeral.readPlain s = some value) : Plain value s ∧ value < 2 ^ 64 := by
  rw [readPlain_eq] at h
  split_ifs at h with hprefix hsuffix
  · obtain ⟨digits, hs⟩ := take_of_lower_eq hprefix
    rcases hs with rfl | rfl
    · obtain ⟨hd, hv⟩ := digits_of_readDigits (by decide) (by decide) h
      exact ⟨.prefixed (.inl rfl) hd, hv⟩
    · obtain ⟨hd, hv⟩ := digits_of_readDigits (by decide) (by decide) h
      exact ⟨.prefixed (.inr rfl) hd, hv⟩
  · obtain ⟨x, hlast, hlower⟩ := Option.map_eq_some_iff.1 hsuffix
    obtain ⟨digits, rfl⟩ := List.getLast?_eq_some_iff.1 hlast
    rw [List.dropLast_concat] at h
    obtain ⟨hd, hv⟩ := digits_of_readDigits (by decide) (by decide) h
    exact ⟨.suffixed (eq_or_of_toLower_eq hlower) hd, hv⟩
  · obtain ⟨hd, hv⟩ := digits_of_readDigits (by decide) (by decide) h
    exact ⟨.decimal hd, hv⟩

end Plain

section Token

variable {value : Nat} {plain numeral token : Text}

theorem isGroupMark_iff {c : Char} : isGroupMark c = true ↔ c = '_' ∨ c = '.' := by
  simp [isGroupMark]

theorem grouped_filter (numeral : Text) : Grouped (numeral.filter (!isGroupMark ·)) numeral := by
  induction numeral with
  | nil => exact .nil
  | cons c cs ih =>
    by_cases hc : isGroupMark c = true
    · rw [List.filter_cons_of_neg (by simp [hc])]
      exact .mark (isGroupMark_iff.1 hc) ih
    · rw [List.filter_cons_of_pos (by simp [hc])]
      exact .keep c ih

theorem Grouped.filter_eq (h : Grouped plain numeral) (hp : ∀ c ∈ plain, isGroupMark c = false) :
    numeral.filter (!isGroupMark ·) = plain := by
  induction h with
  | nil => rfl
  | mark hc _ ih => rw [List.filter_cons_of_neg (by simp [isGroupMark_iff.2 hc]), ih hp]
  | keep c _ ih =>
    obtain ⟨hc, hcs⟩ := List.forall_mem_cons.1 hp
    rw [List.filter_cons_of_pos (by simp [hc]), ih hcs]

theorem Grouped.not_blank (h : Grouped plain numeral) (hp : ∀ c ∈ plain, isBlank c = false) :
    ∀ c ∈ numeral, isBlank c = false := by
  induction h with
  | nil => simp
  | mark hc _ ih =>
    refine List.forall_mem_cons.2 ⟨?_, ih hp⟩
    rcases hc with rfl | rfl <;> decide
  | keep c _ ih =>
    obtain ⟨hc, hcs⟩ := List.forall_mem_cons.1 hp
    exact List.forall_mem_cons.2 ⟨hc, ih hcs⟩

theorem Writes.read (h : Writes value token) :
    read token = if value < 2 ^ 64 then some ⟨value, .ofValue value⟩ else none := by
  obtain ⟨front, plain, numeral, back, rfl, hfront, hback, hgrouped, hplain⟩ := h
  rw [Numeral.read, trim_surrounded hfront (hgrouped.not_blank hplain.not_blank) hback,
    hgrouped.filter_eq hplain.not_mark, hplain.readPlain, apply_ite (Option.map _)]
  rfl

theorem writes_of_read {n : Numeral} (h : Numeral.read token = some n) :
    Writes n.value token ∧ n.value < 2 ^ 64 := by
  obtain ⟨value, hread, rfl⟩ := Option.map_eq_some_iff.1 h
  obtain ⟨hplain, hv⟩ := plain_of_readPlain hread
  obtain ⟨front, back, htoken, hfront, hback⟩ := exists_surrounded token
  exact ⟨⟨front, _, trim token, back, htoken, hfront, hback, grouped_filter _, hplain⟩, hv⟩

end Token
end Numeral

namespace BitWidth

theorem lt_of_lt_pow {value low bits : Nat} (hlow : ¬value < 2 ^ low) (h : value < 2 ^ bits) : low < bits :=
  (Nat.pow_lt_pow_iff_right (by decide)).1 (Nat.lt_of_le_of_lt (Nat.le_of_not_lt hlow) h)

/-- The width given to a value is the least one that holds it. -/
theorem ofValue_least {value : Nat} (h : value < 2 ^ 64) :
    value < 2 ^ (ofValue value).bits ∧
      ∀ bits ∈ [8, 16, 32, 64], value < 2 ^ bits → (ofValue value).bits ≤ bits := by
  have habove8 : ∀ bits ∈ [8, 16, 32, 64], 8 < bits → 16 ≤ bits := by decide
  have habove16 : ∀ bits ∈ [8, 16, 32, 64], 16 < bits → 32 ≤ bits := by decide
  have habove32 : ∀ bits ∈ [8, 16, 32, 64], 32 < bits → 64 ≤ bits := by decide
  unfold ofValue
  split_ifs with h8 h16 h32
  · refine ⟨h8, fun bits hb _ => ?_⟩
    have hleast : ∀ bits ∈ [8, 16, 32, 64], 8 ≤ bits := by decide
    exact hleast bits hb
  · exact ⟨h16, fun bits hb hlt => habove8 bits hb (lt_of_lt_pow h8 hlt)⟩
  · exact ⟨h32, fun bits hb hlt => habove16 bits hb (lt_of_lt_pow h16 hlt)⟩
  · exact ⟨h, fun bits hb hlt => habove32 bits hb (lt_of_lt_pow h32 hlt)⟩

end BitWidth

namespace Numeral

/-- A token that writes a value of at most 64 bits is read as this value, in the least width that
holds it. A larger value is not read, nor is any other token. -/
theorem read_iff_writes (token : Text) :
    (∀ value < 2 ^ 64, Writes value token → ∃ width, read token = some ⟨value, width⟩ ∧
      value < 2 ^ width.bits ∧ ∀ bits ∈ [8, 16, 32, 64], value < 2 ^ bits → width.bits ≤ bits) ∧
    (∀ value ≥ 2 ^ 64, Writes value token → read token = none) ∧
    ((∀ value < 2 ^ 64, ¬Writes value token) → read token = none) := by
  refine ⟨?_, ?_, ?_⟩
  · intro value hv hw
    refine ⟨.ofValue value, ?_, BitWidth.ofValue_least hv⟩
    rw [hw.read, if_pos hv]
  · intro value hv hw
    rw [hw.read, if_neg (Nat.not_lt_of_le hv)]
  · intro hnone
    apply Option.eq_none_iff_forall_ne_some.2
    intro n hn
    obtain ⟨hw, hv⟩ := writes_of_read hn
    exact hnone n.value hv hw

/-- A group mark may split the prefix itself. -/
theorem read_of_splitPrefix :
    let token := " 0_X.0fF ".toList
    Writes 255 token ∧ ∃ width, read token = some ⟨255, width⟩ ∧ width.bits = 8 := by
  intro token
  have hgrouped : Grouped ['0', 'X', '0', 'f', 'F'] ['0', '_', 'X', '.', '0', 'f', 'F'] :=
    .keep '0' (.mark (.inl rfl) (.keep 'X' (.mark (.inr rfl) (.keep '0' (.keep 'f' (.keep 'F' .nil))))))
  have hwrites : Writes 255 token :=
    ⟨[' '], _, _, [' '], rfl, by simp [isBlank], by simp [isBlank], hgrouped, .prefixed (.inr rfl) ⟨1, rfl⟩⟩
  obtain ⟨width, hread, _, hleast⟩ := (read_iff_writes token).1 255 (by decide) hwrites
  refine ⟨hwrites, width, hread, ?_⟩
  have hle := hleast 8 (by decide) (by decide)
  cases width <;> simp [BitWidth.bits] at hle ⊢

/-- Whether a numeral is too large is decided by its value and not by its length. -/
example : read "0000000000000000000000FFh".toList = some ⟨255, .byte⟩ ∧ read "10000000000000000h".toList = none := by
  decide

end Numeral
end AsmOutline
