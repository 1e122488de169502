import AsmOutline.Proofs.TextBytes
import Mathlib.Tactic.SplitIfs

/-! # The order of texts is the order of their bytes

A character is one byte, or a lead byte and up to three bytes of six bits each. The lead bytes
of longer forms are larger, and forms of one length compare digit by digit. So texts compare by
their characters as they do by their bytes.
-/
namespace AsmOutline.Text

/-- What is left of a code point when `k` bytes of six bits are taken off its end. -/
def leadBits : Nat → Nat → Nat
  | 0, n => n
  | k + 1, n => leadBits k (n / 64)

def trailBytes : Nat → Nat → List UInt8
  | 0, _ => []
  | k + 1, n => trailBytes k (n / 64) ++ [.ofNat (n % 64 + 0x80)]

def trailCount (n : Nat) : Nat :=
  if n ≤ 0x7f then 0 else if n ≤ 0x7ff then 1 else if n ≤ 0xffff then 2 else 3

/-- The marks of a lead byte, above the bits of the code point. -/
def leadBase : Nat → Nat
  | 0 => 0
  | 1 => 0xc0
  | 2 => 0xe0
  | _ => 0xf0

def leadByte (n : Nat) : Nat :=
  leadBase (trailCount n) + leadBits (trailCount n) n

theorem toNat_lt (c : Char) : c.toNat < 0x110000 := by
  rcases c.valid with h | h
  · exact Nat.lt_trans h (by decide)
  · exact h.2

theorem ofNat_lt_ofNat {a b : Nat} (h : a < b) (hb : b < 256) : UInt8.ofNat a < UInt8.ofNat b := by
  rw [UInt8.lt_iff_toNat_lt, UInt8.toNat_ofNat', UInt8.toNat_ofNat']
  omega

theorem encode_eq (c : Char) :
    String.utf8EncodeChar c = .ofNat (leadByte c.toNat) :: trailBytes (trailCount c.toNat) c.toNat := by
  have hn := toNat_lt c
  have hforms : String.utf8EncodeChar c =
      let n := c.toNat
      if n ≤ 0x7f then [.ofNat n]
      else if n ≤ 0x7ff then [.ofNat (n / 64 % 0x20 + 0xc0), .ofNat (n % 0x40 + 0x80)]
      else if n ≤ 0xffff then
        [.ofNat (n / 4096 % 0x10 + 0xe0), .ofNat (n / 64 % 0x40 + 0x80), .ofNat (n % 0x40 + 0x80)]
      else
        [.ofNat (n / 262144 % 0x08 + 0xf0), .ofNat (n / 4096 % 0x40 + 0x80), .ofNat (n / 64 % 0x40 + 0x80),
          .ofNat (n % 0x40 + 0x80)] := rfl
  rw [hforms]
  unfold leadByte trailCount
  dsimp only
  -- the bits of the lead byte are all that is left, so that to mask them changes nothing
  split_ifs <;>
    simp only [leadBase, leadBits, trailBytes, Nat.div_div_eq_div_mul, Nat.reduceMul, List.nil_append,
      List.cons_append, List.cons.injEq, and_true, Nat.zero_add] <;>
    congr 1 <;> omega

theorem leadByte_lt_256 {n : Nat} (h : n < 0x110000) : leadByte n < 256 := by
  unfold leadByte trailCount
  split_ifs <;> simp only [leadBase, leadBits] <;> omega

/-- A longer form has the larger lead byte. -/
theorem leadByte_lt {a b : Nat} (h : a < b) (hcount : trailCount a ≠ trailCount b) : leadByte a < leadByte b := by
  unfold leadByte trailCount at *
  split_ifs at * <;> simp only [leadBase, leadBits] <;> omega

/-- Of two numbers the larger has the larger lead, or else the larger bytes after it. -/
theorem leadBits_lt_or_trailBytes_lt (k : Nat) {a b : Nat} (h : a < b) (s t : List UInt8) :
    leadBits k a < leadBits k b ∨ leadBits k a = leadBits k b ∧ trailBytes k a ++ s < trailBytes k b ++ t := by
  induction k generalizing a b s t with
  | zero => exact .inl h
  | succ k ih =>
    simp only [leadBits, trailBytes, List.append_assoc, List.singleton_append]
    by_cases hq : a / 64 < b / 64
    · exact ih hq _ _
    · have hsame : a / 64 = b / 64 := by omega
      have hlast : a % 64 + 0x80 < b % 64 + 0x80 := by omega
      have hbyte : UInt8.ofNat (a % 64 + 0x80) < .ofNat (b % 64 + 0x80) := ofNat_lt_ofNat hlast (by omega)
      rw [hsame]
      exact .inr ⟨rfl, List.append_left_lt (List.cons_lt_cons_iff.2 (.inl hbyte))⟩

/-- A larger character has the larger bytes, whatever follows. -/
theorem encode_append_lt {c d : Char} (h : c.toNat < d.toNat) (s t : List UInt8) :
    String.utf8EncodeChar c ++ s < String.utf8EncodeChar d ++ t := by
  have hd := leadByte_lt_256 (toNat_lt d)
  rw [encode_eq, encode_eq, List.cons_append, List.cons_append, List.cons_lt_cons_iff]
  by_cases hcount : trailCount c.toNat = trailCount d.toNat
  · rcases leadBits_lt_or_trailBytes_lt (trailCount d.toNat) h s t with hlead | ⟨hlead, htrail⟩
    · left
      apply ofNat_lt_ofNat _ hd
      rw [leadByte, leadByte, hcount]
      omega
    · right
      rw [leadByte, leadByte, hcount, hlead]
      exact ⟨rfl, htrail⟩
  · exact .inl (ofNat_lt_ofNat (leadByte_lt h hcount) hd)

theorem utf8_lt_of_compare {s t : Text} (h : compare s t = .lt) : utf8 s < utf8 t := by
  induction s generalizing t with
  | nil =>
    cases t with
    | nil => cases h
    | cons d t =>
      rw [utf8, utf8, List.flatMap_cons, encode_eq]
      exact List.nil_lt_cons _ _
  | cons c s ih =>
    cases t with
    | nil => cases h
    | cons d t =>
      rw [List.compare_cons_cons, Ordering.then_eq_lt] at h
      rw [utf8, utf8, List.flatMap_cons, List.flatMap_cons]
      rcases h with h | ⟨h, hrest⟩
      · exact encode_append_lt (Char.lt_def.1 (compareOfLessAndEq_eq_lt.1 h)) _ _
      · rw [Std.LawfulEqOrd.eq_of_compare h]
        exact List.append_left_lt (ih hrest)

end AsmOutline.Text
