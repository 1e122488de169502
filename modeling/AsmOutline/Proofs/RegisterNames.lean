import AsmOutline.Proofs.TextBytes
import AsmOutline.Proofs.WordCase
import Mathlib.Data.List.Sections

/-! # The list of registers and their test

The list of register names is written out by a table of rows, each with the characters that may
stand at each place. The test of a name accepts exactly what fits one of these rows: it goes
through the characters from left to right, and on every path what it leaves open is a row or a few
rows of the table. It makes no difference whether it reads characters or bytes.
-/
namespace AsmOutline.Register
open Text

/-- The rows of the list, in its order. -/
def rows : List (List String) := [
  ["RE", "A", "X"], ["A", "XLH"],
  ["RE", "B", "X"], ["B", "XLH"],
  ["RE", "C", "X"], ["C", "XLH"],
  ["RE", "D", "X"], ["D", "XLH"],
  ["RE", "S", "I"], ["S", "I"], ["S", "I", "L"],
  ["RE", "D", "I"], ["D", "I"], ["D", "I", "L"],
  ["RE", "B", "P"], ["B", "P"], ["B", "P", "L"],
  ["RE", "S", "P"], ["S", "P"], ["S", "P", "L"],
  ["R", "8"], ["R", "8", "DWB"],
  ["R", "9"], ["R", "9", "DWB"],
  ["R", "1", "0"], ["R", "1", "0", "DWB"],
  ["R", "1", "1"], ["R", "1", "1", "DWB"],
  ["R", "1", "2"], ["R", "1", "2", "DWB"],
  ["R", "1", "3"], ["R", "1", "3", "DWB"],
  ["R", "1", "4"], ["R", "1", "4", "DWB"],
  ["R", "1", "5"], ["R", "1", "5", "DWB"],
  ["M", "M", "01234567"],
  ["X", "M", "M", "0123456789"], ["X", "M", "M", "1", "012345"],
  ["Y", "M", "M", "0123456789"], ["Y", "M", "M", "1", "012345"],
  ["Z", "M", "M", "0123456789"], ["Z", "M", "M", "1", "0123456789"], ["Z", "M", "M", "2", "0123456789"],
  ["Z", "M", "M", "3", "01"]]

/-- The words that take one character from each place of a row. -/
def spellings (row : List String) : List Text :=
  (row.map String.toList).sections

def fits : List String → Text → Bool
  | [], [] => true
  | choices :: row, c :: s => among choices c && fits row s
  | _, _ => false

def Listed (s : Text) : Prop :=
  ∃ row ∈ rows, fits row s = true

instance (s : Text) : Decidable (Listed s) :=
  inferInstanceAs (Decidable (∃ row ∈ rows, fits row s = true))

theorem names_eq : names = (rows.flatMap spellings).map String.ofList := by
  decide +kernel

section Rows

variable {row : List String} {s : Text} {choices : String} {c : Char}

theorem among_iff : among choices c = true ↔ c ∈ choices.toList := by
  simp [among]

theorem fits_cons (hc : among choices c = true) (hs : fits row s = true) : fits (choices :: row) (c :: s) = true :=
  Bool.and_eq_true_iff.2 ⟨hc, hs⟩

theorem fits_iff : fits row s = true ↔ s ∈ spellings row := by
  rw [spellings, List.mem_sections, List.forall₂_map_right_iff]
  induction row generalizing s with
  | nil => cases s <;> simp [fits]
  | cons choices row ih =>
    cases s with
    | nil => simp [fits]
    | cons c s => simp [fits, among_iff, ih]

theorem listed_iff : Listed s ↔ String.ofList s ∈ names := by
  have hinj : Function.Injective String.ofList := fun _ _ => String.ofList_injective
  rw [names_eq, List.mem_map_of_injective hinj, List.mem_flatMap]
  simp only [Listed, fits_iff]

/-- What is left open on a path of the test may spread over several rows of the table. -/
theorem listed_of_fits (row : List String) (hall : ∀ s ∈ spellings row, Listed s) (h : fits row s = true) :
    Listed s :=
  hall s (fits_iff.1 h)

end Rows

section Test

variable {c d e f g : Char}

theorem within_eq_among {high : Char} {choices : String}
    (hin : ∀ n ≤ high.toNat, '0'.toNat ≤ n → Char.ofNat n ∈ choices.toList)
    (hout : choices.toList.all (within '0' high) = true) (c : Char) :
    within '0' high c = among choices c := by
  rw [Bool.eq_iff_iff, among_iff]
  refine ⟨fun h => ?_, List.all_eq_true.1 hout c⟩
  simp only [within, Bool.and_eq_true, decide_eq_true_eq] at h
  have hmem := hin c.toNat h.2 h.1
  rwa [Char.ofNat_toNat] at hmem

theorem within_five (c : Char) : within '0' '5' c = among "012345" c :=
  within_eq_among (by decide) (by decide) c

theorem within_seven (c : Char) : within '0' '7' c = among "01234567" c :=
  within_eq_among (by decide) (by decide) c

theorem within_nine (c : Char) : within '0' '9' c = among "0123456789" c :=
  within_eq_among (by decide) (by decide) c

theorem listed_of_two (h : isUpperName [c, d] = true) : Listed [c, d] := by
  simp only [isUpperName] at h
  split at h
  · exact listed_of_fits ["A", "XHL"] (by decide +kernel) (fits_cons rfl (fits_cons h rfl))
  · exact listed_of_fits ["C", "XHL"] (by decide +kernel) (fits_cons rfl (fits_cons h rfl))
  · exact listed_of_fits ["B", "XHLP"] (by decide +kernel) (fits_cons rfl (fits_cons h rfl))
  · exact listed_of_fits ["D", "XHLI"] (by decide +kernel) (fits_cons rfl (fits_cons h rfl))
  · exact listed_of_fits ["S", "IP"] (by decide +kernel) (fits_cons rfl (fits_cons h rfl))
  · exact listed_of_fits ["R", "89"] (by decide +kernel) (fits_cons rfl (fits_cons h rfl))
  · cases h

theorem listed_of_pair (hc : among "RE" c = true) (h : isPair d e = true) : Listed [c, d, e] := by
  unfold isPair at h
  split at h
  · obtain rfl := beq_iff_eq.1 h
    exact ⟨["RE", "A", "X"], by decide +kernel, fits_cons hc (fits_cons rfl rfl)⟩
  · obtain rfl := beq_iff_eq.1 h
    exact ⟨["RE", "C", "X"], by decide +kernel, fits_cons hc (fits_cons rfl rfl)⟩
  · exact listed_of_fits ["RE", "B", "XP"] (by decide +kernel) (fits_cons hc (fits_cons rfl (fits_cons h rfl)))
  · exact listed_of_fits ["RE", "D", "XI"] (by decide +kernel) (fits_cons hc (fits_cons rfl (fits_cons h rfl)))
  · exact listed_of_fits ["RE", "S", "IP"] (by decide +kernel) (fits_cons hc (fits_cons rfl (fits_cons h rfl)))
  · cases h

theorem listed_of_three (h : isUpperName [c, d, e] = true) : Listed [c, d, e] := by
  simp only [isUpperName, within_five, within_seven] at h
  split at h
  · split at h
    · exact ⟨["R", "8", "DWB"], by decide +kernel, fits_cons rfl (fits_cons rfl (fits_cons h rfl))⟩
    · exact ⟨["R", "9", "DWB"], by decide +kernel, fits_cons rfl (fits_cons rfl (fits_cons h rfl))⟩
    · exact listed_of_fits ["R", "1", "012345"] (by decide +kernel)
        (fits_cons rfl (fits_cons rfl (fits_cons h rfl)))
    · exact listed_of_pair rfl h
  · exact listed_of_pair rfl h
  · obtain ⟨rfl, rfl⟩ : d = 'P' ∧ e = 'L' := by simpa using h
    decide +kernel
  · obtain ⟨hd, rfl⟩ : among "PI" d = true ∧ e = 'L' := by simpa using h
    exact listed_of_fits ["S", "PI", "L"] (by decide +kernel) (fits_cons rfl (fits_cons hd rfl))
  · obtain ⟨rfl, rfl⟩ : d = 'I' ∧ e = 'L' := by simpa using h
    decide +kernel
  · obtain ⟨rfl, he⟩ : d = 'M' ∧ among "01234567" e = true := by simpa using h
    exact ⟨["M", "M", "01234567"], by decide +kernel, fits_cons rfl (fits_cons rfl (fits_cons he rfl))⟩
  · cases h

theorem listed_of_four (h : isUpperName [c, d, e, f] = true) : Listed [c, d, e, f] := by
  simp only [isUpperName, within_five, within_nine] at h
  split at h
  · obtain ⟨⟨rfl, he⟩, hf⟩ : (d = '1' ∧ among "012345" e = true) ∧ among "DWB" f = true := by simpa using h
    exact listed_of_fits ["R", "1", "012345", "DWB"] (by decide +kernel)
      (fits_cons rfl (fits_cons rfl (fits_cons he (fits_cons hf rfl))))
  · obtain ⟨⟨rfl, rfl⟩, hf⟩ : (d = 'M' ∧ e = 'M') ∧ among "0123456789" f = true := by simpa using h
    exact ⟨["X", "M", "M", "0123456789"], by decide +kernel,
      fits_cons rfl (fits_cons rfl (fits_cons rfl (fits_cons hf rfl)))⟩
  · obtain ⟨⟨rfl, rfl⟩, hf⟩ : (d = 'M' ∧ e = 'M') ∧ among "0123456789" f = true := by simpa using h
    exact ⟨["Y", "M", "M", "0123456789"], by decide +kernel,
      fits_cons rfl (fits_cons rfl (fits_cons rfl (fits_cons hf rfl)))⟩
  · obtain ⟨⟨rfl, rfl⟩, hf⟩ : (d = 'M' ∧ e = 'M') ∧ among "0123456789" f = true := by simpa using h
    exact ⟨["Z", "M", "M", "0123456789"], by decide +kernel,
      fits_cons rfl (fits_cons rfl (fits_cons rfl (fits_cons hf rfl)))⟩
  · cases h

theorem listed_of_five (h : isUpperName [c, d, e, f, g] = true) : Listed [c, d, e, f, g] := by
  simp only [isUpperName, within_five, within_nine] at h
  split at h
  · obtain ⟨⟨⟨rfl, rfl⟩, rfl⟩, hg⟩ : ((d = 'M' ∧ e = 'M') ∧ f = '1') ∧ among "012345" g = true := by
      simpa using h
    exact ⟨["X", "M", "M", "1", "012345"], by decide +kernel,
      fits_cons rfl (fits_cons rfl (fits_cons rfl (fits_cons rfl (fits_cons hg rfl))))⟩
  · obtain ⟨⟨⟨rfl, rfl⟩, rfl⟩, hg⟩ : ((d = 'M' ∧ e = 'M') ∧ f = '1') ∧ among "012345" g = true := by
      simpa using h
    exact ⟨["Y", "M", "M", "1", "012345"], by decide +kernel,
      fits_cons rfl (fits_cons rfl (fits_cons rfl (fits_cons rfl (fits_cons hg rfl))))⟩
  · obtain ⟨⟨hd, he⟩, hg⟩ := Bool.and_eq_true_iff.1 h |>.imp_left Bool.and_eq_true_iff.1
    obtain rfl := beq_iff_eq.1 hd
    obtain rfl := beq_iff_eq.1 he
    split at hg
    · exact ⟨["Z", "M", "M", "1", "0123456789"], by decide +kernel,
        fits_cons rfl (fits_cons rfl (fits_cons rfl (fits_cons rfl (fits_cons hg rfl))))⟩
    · exact ⟨["Z", "M", "M", "2", "0123456789"], by decide +kernel,
        fits_cons rfl (fits_cons rfl (fits_cons rfl (fits_cons rfl (fits_cons hg rfl))))⟩
    · exact ⟨["Z", "M", "M", "3", "01"], by decide +kernel,
        fits_cons rfl (fits_cons rfl (fits_cons rfl (fits_cons rfl (fits_cons hg rfl))))⟩
    · cases hg
  · cases h

end Test

variable {s : Text}

theorem listed_of_isUpperName (h : isUpperName s = true) : Listed s := by
  match s, h with
  | [_, _], h => exact listed_of_two h
  | [_, _, _], h => exact listed_of_three h
  | [_, _, _, _], h => exact listed_of_four h
  | [_, _, _, _, _], h => exact listed_of_five h

theorem forall_listed {p : Text → Bool} (h : (rows.flatMap spellings).all p = true) (hs : Listed s) : p s = true := by
  obtain ⟨row, hrow, hfits⟩ := hs
  exact List.all_eq_true.1 h s (List.mem_flatMap.2 ⟨row, hrow, fits_iff.1 hfits⟩)

theorem isUpperName_iff : isUpperName s = true ↔ String.ofList s ∈ names := by
  rw [← listed_iff]
  exact ⟨listed_of_isUpperName, forall_listed (by decide +kernel)⟩

theorem isAscii_of_toUpper {c : Char} (h : IsAscii c.toUpper) : IsAscii c := by
  by_cases hc : c.val ≥ 'a'.val ∧ c.val ≤ 'z'.val
  · exact Nat.lt_of_le_of_lt hc.2 (by decide)
  · have hsame : c.toUpper = c := dif_neg hc
    rwa [hsame] at h

theorem isAscii_of_isName (h : isName s = true) : ∀ c ∈ s, IsAscii c := by
  have hall : (upper s).all (IsAscii ·) = true :=
    forall_listed (p := fun s => s.all (IsAscii ·)) (by decide +kernel) (listed_of_isUpperName h)
  intro c hc
  apply isAscii_of_toUpper
  simpa using List.all_eq_true.1 hall c.toUpper (List.mem_map_of_mem hc)

theorem isName_ofBytes (token : Text) : isName (ofBytes (utf8 token)) = isName token := by
  rw [Bool.eq_iff_iff]
  constructor
  · intro h
    rwa [ofBytes_utf8_of_isAscii (isAscii_of_ofBytes (isAscii_of_isName h))] at h
  · intro h
    rwa [ofBytes_utf8_of_isAscii (isAscii_of_isName h)]

/-- A token names a register, read by characters or by bytes, exactly when the list has it in
upper case. -/
theorem isName_iff_mem_names (token : Text) :
    (isName token = true ↔ String.ofList (upper token) ∈ names) ∧
      (isName (ofBytes (utf8 token)) = true ↔ String.ofList (upper token) ∈ names) := by
  rw [isName_ofBytes]
  exact ⟨isUpperName_iff, isUpperName_iff⟩

/-- Letters beyond ASCII have no upper case here, so the long s does not stand for S. -/
example : isName "xMm15".toList = true ∧ isName "ſp".toList = false := by
  decide

end AsmOutline.Register
