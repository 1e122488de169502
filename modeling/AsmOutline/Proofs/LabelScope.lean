import AsmOutline.Proofs.LabelMirror

/-! # Parents along a source

Which non-local label a line opens depends on the line alone. So the parent at the start
of a line is the last label opened above it, and the record of a line in the index is the
scan of the line under that parent.
-/
namespace AsmOutline
open Text

theorem Source.line_of_le {source : Source} {n : Nat} (h : source.lineCount ≤ n) : source.line n = [] := by
  rw [line, List.getD_eq_getElem?_getD, List.getElem?_eq_none h]
  rfl

namespace LabelRecord

theorem ofTokens_opens (line : Text) (tokens : List Token) (p q : Option Text) :
    (ofTokens line p tokens).opens = (ofTokens line q tokens).opens := by
  induction tokens generalizing p q with
  | nil => rfl
  | cons token tokens ih =>
    unfold ofTokens
    split
    · exact congrArg (Option.or · _) (ih _ _)
    · exact ih _ _

/-- The non-local label that a line leaves open for the lines below. -/
def openedBy (t : Tokenizer) (line : Text) : Option Text :=
  (scan t none line).opens

@[simp] theorem scan_opens (t : Tokenizer) (parent : Option Text) (line : Text) :
    (scan t parent line).opens = openedBy t line :=
  ofTokens_opens line _ _ _

theorem ofTokens_opens_of_isEmpty {line : Text} {parent : Option Text} {tokens : List Token}
    (h : (ofTokens line parent tokens).isEmpty) : (ofTokens line parent tokens).opens = none := by
  cases tokens with
  | nil => rfl
  | cons token tokens =>
    unfold ofTokens at h
    split at h <;> simp [isEmpty] at h

@[simp] theorem scan_nil (t : Tokenizer) (parent : Option Text) : scan t parent [] = {} := rfl

@[simp] theorem openedBy_nil (t : Tokenizer) : openedBy t [] = none := rfl

end LabelRecord

namespace LabelIndex
open LabelRecord

/-- The parent of local labels at the start of line `n`. -/
def parentAt (t : Tokenizer) (source : Source) : Nat → Option Text
  | 0 => none
  | n + 1 => (openedBy t (source.line n)).or (parentAt t source n)

def recordAt (t : Tokenizer) (source : Source) (n : Nat) : LabelRecord :=
  scan t (parentAt t source n) (source.line n)

variable {t : Tokenizer} {source : Source}

theorem kept_scan_opens (parent : Option Text) (line : Text) :
    (kept (scan t parent line)).bind LabelRecord.opens = openedBy t line := by
  unfold kept
  split
  · next h => rw [← scan_opens t parent line, scan, ofTokens_opens_of_isEmpty h]; rfl
  · exact scan_opens t parent line

theorem line_of_drop_eq {line : Nat} {text : Text} {rest : List Text}
    (h : source.lines.drop line = text :: rest) :
    source.line line = text ∧ source.lines.drop (line + 1) = rest := by
  have hl : source.lines[line]? = some text := by
    rw [← List.head?_drop, h]
    rfl
  constructor
  · rw [Source.line, List.getD_eq_getElem?_getD, hl]
    rfl
  · rw [← List.tail_drop, h]
    rfl

/-- One line of the scan keeps the parent and adds the record of that line. -/
theorem insertFrom_cons {line : Nat} {text : Text} {rest : List Text} {index : LabelIndex}
    (h : source.lines.drop line = text :: rest) :
    insertFrom t (parentAt t source line) line (text :: rest) index =
      insertFrom t (parentAt t source (line + 1)) (line + 1) rest
        (index.insertLine line (recordAt t source line)) := by
  obtain ⟨rfl, -⟩ := line_of_drop_eq h
  rw [insertFrom, parentAt, recordAt, scan_opens]

theorem insertFrom_lineCount (parent : Option Text) (line : Nat) (texts : List Text)
    (index : LabelIndex) : (insertFrom t parent line texts index).lineCount = index.lineCount := by
  induction texts generalizing parent line index with
  | nil => rfl
  | cons text texts ih => rw [insertFrom, ih, insertLine_lineCount]

/-- Nothing is stored from `line` on. -/
def FreshFrom (index : LabelIndex) (line : Nat) : Prop :=
  ∀ n, line ≤ n → index.records[n]? = none

theorem FreshFrom.insertLine {index : LabelIndex} {line : Nat} (h : FreshFrom index line)
    (record : LabelRecord) : FreshFrom (index.insertLine line record) (line + 1) := by
  intro n hn
  rw [insertLine_records, if_neg (by omega)]
  exact h n (by omega)

theorem insertFrom_records {line : Nat} {texts : List Text} {index : LabelIndex}
    (ht : source.lines.drop line = texts) (hf : FreshFrom index line) (n : Nat) :
    (insertFrom t (parentAt t source line) line texts index).records[n]? =
      if n < line then index.records[n]? else kept (recordAt t source n) := by
  induction texts generalizing line index with
  | nil =>
    rw [insertFrom]
    split_ifs with hn
    · rfl
    · have hc : source.lineCount ≤ line := List.drop_eq_nil_iff.1 ht
      rw [hf n (by omega), recordAt, Source.line_of_le (by omega)]
      rfl
  | cons text rest ih =>
    rw [insertFrom_cons ht, ih (line_of_drop_eq ht).2 (hf.insertLine _), insertLine_records]
    rcases Nat.lt_trichotomy n line with hn | rfl | hn
    · simp [show n < line + 1 by omega, show n ≠ line by omega, hn]
    · simp [hf n (Nat.le_refl n)]
    · simp [show ¬n < line + 1 by omega, show ¬n < line by omega]

theorem insertFrom_mirrors {line : Nat} {texts : List Text} {index : LabelIndex} {parent : Option Text}
    (hf : FreshFrom index line) (hm : Mirrors index) :
    Mirrors (insertFrom t parent line texts index) := by
  induction texts generalizing line index parent with
  | nil => exact hm
  | cons text rest ih => exact ih (hf.insertLine _) (hm.insertLine (hf line (Nat.le_refl line)))

theorem freshFrom_empty (count line : Nat) : FreshFrom { lineCount := count } line := by
  intro n _
  simp

theorem build_records (t : Tokenizer) (source : Source) (n : Nat) :
    (build t source).records[n]? = kept (recordAt t source n) := by
  have hf := freshFrom_empty source.lineCount 0
  have h : (insertFrom t (parentAt t source 0) 0 source.lines { lineCount := source.lineCount }).records[n]? =
      if n < 0 then none else kept (recordAt t source n) := by
    rw [insertFrom_records List.drop_zero hf]
    simp
  rw [if_neg (by omega)] at h
  exact h

theorem build_mirrors (t : Tokenizer) (source : Source) : Mirrors (build t source) :=
  insertFrom_mirrors (freshFrom_empty source.lineCount 0) (mirrors_empty _)

@[simp] theorem build_lineCount (t : Tokenizer) (source : Source) :
    (build t source).lineCount = source.lineCount :=
  insertFrom_lineCount none 0 source.lines _

theorem ordered_records (records : Std.ExtTreeMap Nat LabelRecord) :
    records.toList.Pairwise (fun a b => a.1 < b.1) := by
  apply records.ordered_keys_toList.imp
  intro a b h
  exact Nat.compare_eq_lt.1 h

theorem eq_of_ordered {xs ys : List (Nat × LabelRecord)} (hx : xs.Pairwise (fun a b => a.1 < b.1))
    (hy : ys.Pairwise (fun a b => a.1 < b.1)) (h : ∀ entry, entry ∈ xs ↔ entry ∈ ys) : xs = ys := by
  have nodup {zs : List (Nat × LabelRecord)} (hz : zs.Pairwise (fun a b => a.1 < b.1)) : zs.Nodup :=
    hz.imp (by
      rintro a b hab rfl
      exact Nat.lt_irrefl a.1 hab)
  have hp : xs.Perm ys := (List.perm_ext_iff_of_nodup (nodup hx) (nodup hy)).2 h
  exact hp.eq_of_pairwise (fun _ _ _ _ hab hba => absurd hba (Nat.lt_asymm hab)) hx hy

/-- The stored records before a line, line by line. -/
theorem records_before (records : Std.ExtTreeMap Nat LabelRecord) (limit : Nat) :
    records.toList.filter (·.1 < limit) =
      (List.range limit).filterMap fun n => records[n]?.map (n, ·) := by
  apply eq_of_ordered
  · exact (ordered_records records).filter _
  · rw [List.pairwise_filterMap]
    apply List.pairwise_lt_range.imp
    intro a b hab x hx y hy
    obtain ⟨_, _, rfl⟩ := Option.map_eq_some_iff.1 hx
    obtain ⟨_, _, rfl⟩ := Option.map_eq_some_iff.1 hy
    exact hab
  · rintro ⟨n, record⟩
    simp only [List.mem_filter, decide_eq_true_eq, List.mem_filterMap, List.mem_range,
      Option.map_eq_some_iff, Prod.mk.injEq, Std.ExtTreeMap.mem_toList_iff_getElem?_eq_some]
    constructor
    · rintro ⟨hr, hn⟩
      exact ⟨n, hn, record, hr, rfl, rfl⟩
    · rintro ⟨_, hn, _, hr, rfl, rfl⟩
      exact ⟨hr, hn⟩

theorem parentBefore_zero (index : LabelIndex) : index.parentBefore 0 = none := by
  rw [parentBefore, records_before]
  rfl

theorem parentBefore_succ (index : LabelIndex) (n : Nat) : index.parentBefore (n + 1) =
    (index.records[n]?.bind LabelRecord.opens).or (index.parentBefore n) := by
  rw [parentBefore, parentBefore, records_before, records_before, List.range_succ,
    List.filterMap_append, List.reverse_append, List.findSome?_append]
  congr 1
  cases hr : index.records[n]? <;> simp [hr]

/-- An index that stores the right record for every line knows every parent. -/
theorem parentBefore_eq {t : Tokenizer} {source : Source} {index : LabelIndex}
    (h : ∀ n : Nat, index.records[n]? = kept (recordAt t source n)) (n : Nat) :
    index.parentBefore n = parentAt t source n := by
  induction n with
  | zero => exact parentBefore_zero index
  | succ n ih => rw [parentBefore_succ, ih, h, recordAt, kept_scan_opens, parentAt]

end LabelIndex
end AsmOutline
