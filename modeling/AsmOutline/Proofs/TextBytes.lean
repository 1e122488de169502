import AsmOutline.Text.Bytes

/-! # Texts byte by byte

The width of a text is the number of bytes of its UTF-8 form. A character below 128 is one byte,
and every byte of any other character is 128 or more. So a scanner that looks for characters below
128 may go over the bytes as if each of them were a character.
-/
namespace AsmOutline.Text

def utf8 (s : Text) : List UInt8 :=
  s.flatMap String.utf8EncodeChar

/-- Each byte as the character with its number. -/
def ofBytes (bytes : List UInt8) : Text :=
  bytes.map fun byte => Char.ofNat byte.toNat

def IsAscii (c : Char) : Prop :=
  c.toNat < 128

instance (c : Char) : Decidable (IsAscii c) :=
  inferInstanceAs (Decidable (_ < _))

theorem length_utf8 (s : Text) : (utf8 s).length = width s := by
  induction s with
  | nil => rfl
  | cons c s ih =>
    rw [utf8, List.flatMap_cons, List.length_append, String.length_utf8EncodeChar, width_cons, ← ih]
    rfl

section Encode

variable {c : Char}

theorem utf8Size_eq_one (h : IsAscii c) : c.utf8Size = 1 :=
  Char.utf8Size_eq_one_iff.2 (Nat.le_of_lt_succ h)

theorem ofBytes_encode (h : IsAscii c) : ofBytes (String.utf8EncodeChar c) = [c] := by
  have hbyte : c.val.toUInt8.toNat = c.toNat := by
    rw [UInt32.toNat_toUInt8]
    exact Nat.mod_eq_of_lt (Nat.lt_trans h (by decide))
  rw [String.utf8EncodeChar_eq_singleton (utf8Size_eq_one h), ofBytes, List.map_singleton, hbyte,
    Char.ofNat_toNat]

theorem le_toNat_or (a : UInt8) {b : UInt8} (h : 128 ≤ b.toNat) : 128 ≤ (a ||| b).toNat := by
  rw [UInt8.toNat_or]
  exact Nat.le_trans h Nat.right_le_or

theorem le_of_mem_encode {byte : UInt8} (h : ¬IsAscii c) (hb : byte ∈ String.utf8EncodeChar c) :
    128 ≤ byte.toNat := by
  have hone : c.utf8Size ≠ 1 := fun hsize => h (Nat.lt_succ_of_le (Char.utf8Size_eq_one_iff.1 hsize))
  rcases Char.utf8Size_eq c with hsize | hsize | hsize | hsize
  · exact absurd hsize hone
  · simp only [String.utf8EncodeChar_eq_cons_cons hsize, List.mem_cons, List.not_mem_nil, or_false] at hb
    rcases hb with rfl | rfl <;> exact le_toNat_or _ (by decide)
  · simp only [String.utf8EncodeChar_eq_cons_cons_cons hsize, List.mem_cons, List.not_mem_nil, or_false] at hb
    rcases hb with rfl | rfl | rfl <;> exact le_toNat_or _ (by decide)
  · simp only [String.utf8EncodeChar_eq_cons_cons_cons_cons hsize, List.mem_cons, List.not_mem_nil,
      or_false] at hb
    rcases hb with rfl | rfl | rfl | rfl <;> exact le_toNat_or _ (by decide)

theorem not_isAscii_of_mem_encode {d : Char} (h : ¬IsAscii c) (hd : d ∈ ofBytes (String.utf8EncodeChar c)) :
    ¬IsAscii d := by
  obtain ⟨byte, hbyte, rfl⟩ := List.mem_map.1 hd
  have hlarge := le_of_mem_encode h hbyte
  have hvalid : byte.toNat.isValidChar := .inl (Nat.lt_trans byte.toNat_lt (by decide))
  have hcode : Char.ofNat byte.toNat = Char.ofNatAux byte.toNat hvalid := dif_pos hvalid
  rw [hcode]
  exact Nat.not_lt_of_le hlarge

end Encode

variable {s : Text}

theorem ofBytes_utf8_cons (c : Char) (s : Text) :
    ofBytes (utf8 (c :: s)) = ofBytes (String.utf8EncodeChar c) ++ ofBytes (utf8 s) :=
  List.map_append

theorem ofBytes_utf8_of_isAscii (h : ∀ c ∈ s, IsAscii c) : ofBytes (utf8 s) = s := by
  induction s with
  | nil => rfl
  | cons c s ih =>
    obtain ⟨hc, hs⟩ := List.forall_mem_cons.1 h
    rw [ofBytes_utf8_cons, ofBytes_encode hc, ih hs]
    rfl

theorem width_of_isAscii (h : ∀ c ∈ s, IsAscii c) : width s = s.length := by
  calc width s
    _ = (ofBytes (utf8 s)).length := by rw [ofBytes, List.length_map, length_utf8]
    _ = s.length := by rw [ofBytes_utf8_of_isAscii h]

theorem isAscii_of_ofBytes (h : ∀ d ∈ ofBytes (utf8 s), IsAscii d) : ∀ c ∈ s, IsAscii c := by
  induction s with
  | nil => simp
  | cons c s ih =>
    rw [ofBytes_utf8_cons] at h
    obtain ⟨hc, hs⟩ := List.forall_mem_append.1 h
    refine List.forall_mem_cons.2 ⟨?_, ih hs⟩
    apply Decidable.byContradiction
    intro hn
    obtain ⟨byte, hbyte⟩ := List.exists_mem_of_ne_nil (String.utf8EncodeChar c) String.utf8EncodeChar_ne_nil
    have hmem : Char.ofNat byte.toNat ∈ ofBytes (String.utf8EncodeChar c) := List.mem_map_of_mem hbyte
    exact not_isAscii_of_mem_encode hn hmem (hc _ hmem)

/-- Among the bytes a run of characters below 128 ends where it ends in the text. -/
theorem takeWhile_ofBytes {p : Char → Bool} (hp : ∀ c, p c = true → IsAscii c) (s : Text) :
    (ofBytes (utf8 s)).takeWhile p = s.takeWhile p := by
  induction s with
  | nil => rfl
  | cons c s ih =>
    rw [ofBytes_utf8_cons]
    by_cases hc : IsAscii c
    · rw [ofBytes_encode hc, List.singleton_append, List.takeWhile_cons, List.takeWhile_cons, ih]
    · have hstop : p c = false := Bool.eq_false_iff.2 fun hpc => hc (hp c hpc)
      rw [List.takeWhile_cons_of_neg (by simp [hstop])]
      cases hbytes : ofBytes (String.utf8EncodeChar c) with
      | nil => exact absurd (List.map_eq_nil_iff.1 hbytes) String.utf8EncodeChar_ne_nil
      | cons d rest =>
        have hd : ¬IsAscii d := not_isAscii_of_mem_encode hc (hbytes ▸ List.mem_cons_self)
        have hstop : p d = false := Bool.eq_false_iff.2 fun hpd => hd (hp d hpd)
        rw [List.cons_append, List.takeWhile_cons_of_neg (by simp [hstop])]

end AsmOutline.Text
