import AsmOutline.Label.Index
import Mathlib.Tactic.SplitIfs
import Mathlib.Tactic.Tauto

/-! # Line sets by membership

A name is kept only while it has lines. Two families of line sets are therefore equal as
soon as every name has the same lines in both.
-/
namespace AsmOutline.LineSets
open Text

variable {sets : LineSets} {line m : Nat} {name key : Text} {names : List Text}

def NoneEmpty (sets : LineSets) : Prop :=
  ∀ name : Text, sets[name]? ≠ some ∅

theorem noneEmpty_empty : NoneEmpty ∅ := by
  intro name
  simp

@[simp] theorem not_mem_lines_empty : m ∉ lines ∅ name := by
  simp [lines]

theorem getElem?_of_noneEmpty (h : NoneEmpty sets) (name : Text) :
    sets[name]? = if (lines sets name).isEmpty then none else some (lines sets name) := by
  cases hs : sets[name]? with
  | none => simp [lines, hs]
  | some found =>
    have hf : found ≠ ∅ := by
      intro he
      exact h name (by rw [hs, he])
    have hn : found.isEmpty = false := Std.ExtTreeSet.isEmpty_eq_false_iff.2 hf
    simp [lines, hs, hn]

theorem ext_mem_lines {a b : LineSets} (ha : NoneEmpty a) (hb : NoneEmpty b)
    (h : ∀ name m, m ∈ lines a name ↔ m ∈ lines b name) : a = b := by
  apply Std.ExtTreeMap.ext_getElem?
  intro name
  have he : lines a name = lines b name := Std.ExtTreeSet.ext_mem (h name)
  rw [getElem?_of_noneEmpty ha, getElem?_of_noneEmpty hb, he]

theorem lines_add : lines (add line sets name) key =
    if key = name then (lines sets name).insert line else lines sets key := by
  by_cases hk : key = name
  · subst key
    simp [lines, add]
  · rw [if_neg hk, lines, add, Std.ExtTreeMap.getElem?_insert, if_neg (by simpa using Ne.symm hk)]
    rfl

theorem mem_lines_add :
    m ∈ lines (add line sets name) key ↔ m = line ∧ key = name ∨ m ∈ lines sets key := by
  rw [lines_add]
  split_ifs with hk
  · subst key
    rw [Std.ExtTreeSet.mem_insert, Nat.compare_eq_eq]
    simp [eq_comm]
  · simp [hk]

theorem noneEmpty_add (h : NoneEmpty sets) : NoneEmpty (add line sets name) := by
  intro key
  rw [add, Std.ExtTreeMap.getElem?_insert]
  split
  · intro he
    have hm : line ∈ (lines sets name).insert line := Std.ExtTreeSet.mem_insert_self
    rw [Option.some.inj he] at hm
    simp at hm
  · exact h key

theorem lines_remove : lines (remove line sets name) key =
    if key = name then (lines sets name).erase line else lines sets key := by
  unfold remove
  by_cases he : ((lines sets name).erase line).isEmpty
  · rw [if_pos he]
    by_cases hk : key = name
    · subst key
      rw [if_pos rfl, Std.ExtTreeSet.isEmpty_iff.1 he]
      simp [lines]
    · rw [if_neg hk, lines, Std.ExtTreeMap.getElem?_erase, if_neg (by simpa using Ne.symm hk)]
      rfl
  · rw [if_neg he]
    by_cases hk : key = name
    · subst key
      simp [lines]
    · rw [if_neg hk, lines, Std.ExtTreeMap.getElem?_insert, if_neg (by simpa using Ne.symm hk)]
      rfl

theorem mem_lines_remove :
    m ∈ lines (remove line sets name) key ↔ m ∈ lines sets key ∧ ¬(m = line ∧ key = name) := by
  rw [lines_remove]
  split_ifs with hk
  · subst key
    rw [Std.ExtTreeSet.mem_erase, Ne, Nat.compare_eq_eq]
    simp [and_comm, eq_comm]
  · simp [hk]

theorem noneEmpty_remove (h : NoneEmpty sets) : NoneEmpty (remove line sets name) := by
  intro key
  unfold remove
  by_cases he : ((lines sets name).erase line).isEmpty
  · rw [if_pos he, Std.ExtTreeMap.getElem?_erase]
    split
    · simp
    · exact h key
  · rw [if_neg he, Std.ExtTreeMap.getElem?_insert]
    split
    · intro hs
      exact he (Std.ExtTreeSet.isEmpty_iff.2 (Option.some.inj hs))
    · exact h key

theorem mem_lines_addAll :
    m ∈ lines (names.foldl (add line) sets) key ↔ m = line ∧ key ∈ names ∨ m ∈ lines sets key := by
  induction names generalizing sets with
  | nil => simp
  | cons name names ih =>
    rw [List.foldl_cons, ih, mem_lines_add, List.mem_cons]
    tauto

theorem noneEmpty_addAll (h : NoneEmpty sets) : NoneEmpty (names.foldl (add line) sets) := by
  induction names generalizing sets with
  | nil => exact h
  | cons name names ih => exact ih (noneEmpty_add h)

theorem mem_lines_removeAll :
    m ∈ lines (names.foldl (remove line) sets) key ↔
      m ∈ lines sets key ∧ ¬(m = line ∧ key ∈ names) := by
  induction names generalizing sets with
  | nil => simp
  | cons name names ih =>
    rw [List.foldl_cons, ih, mem_lines_remove, List.mem_cons]
    tauto

theorem noneEmpty_removeAll (h : NoneEmpty sets) : NoneEmpty (names.foldl (remove line) sets) := by
  induction names generalizing sets with
  | nil => exact h
  | cons name names ih => exact ih (noneEmpty_remove h)

end AsmOutline.LineSets
