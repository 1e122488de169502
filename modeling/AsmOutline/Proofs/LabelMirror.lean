import AsmOutline.Proofs.LineSets

/-! # The maps of an index mirror its records

The lines under a name are exactly the lines whose record has a site of that name. An
index with this property is determined by its records and its number of lines, so from
here on an index is compared record by record.
-/
namespace AsmOutline.LabelIndex
open Text

/-- The sets hold, for each name, the lines whose record names it among the chosen sites. -/
structure SetsMirror (sets : LineSets) (records : Std.ExtTreeMap Nat LabelRecord)
    (part : LabelRecord → List LabelSite) : Prop where
  noneEmpty : LineSets.NoneEmpty sets
  mem_iff : ∀ name line, line ∈ sets.lines name ↔
    ∃ record, records[line]? = some record ∧ name ∈ names (part record)

namespace SetsMirror

variable {sets : LineSets} {records : Std.ExtTreeMap Nat LabelRecord}
  {part : LabelRecord → List LabelSite} {line : Nat} {record : LabelRecord}

theorem empty : SetsMirror ∅ ∅ part where
  noneEmpty := LineSets.noneEmpty_empty
  mem_iff name line := by simp

theorem unique {other : LineSets} (h : SetsMirror sets records part)
    (ho : SetsMirror other records part) : sets = other := by
  apply LineSets.ext_mem_lines h.noneEmpty ho.noneEmpty
  intro name m
  rw [h.mem_iff, ho.mem_iff]

theorem insert (h : SetsMirror sets records part) (hl : records[line]? = none) :
    SetsMirror ((names (part record)).foldl (LineSets.add line) sets) (records.insert line record) part where
  noneEmpty := LineSets.noneEmpty_addAll h.noneEmpty
  mem_iff name m := by
    rw [LineSets.mem_lines_addAll, h.mem_iff, Std.ExtTreeMap.getElem?_insert]
    by_cases hm : line = m
    · subst m
      simp [hl]
    · have hm' : m ≠ line := Ne.symm hm
      simp [hm, hm']

theorem erase (h : SetsMirror sets records part) (hr : records[line]? = some record) :
    SetsMirror ((names (part record)).foldl (LineSets.remove line) sets) (records.erase line) part where
  noneEmpty := LineSets.noneEmpty_removeAll h.noneEmpty
  mem_iff name m := by
    rw [LineSets.mem_lines_removeAll, h.mem_iff, Std.ExtTreeMap.getElem?_erase]
    by_cases hm : line = m
    · subst m
      simp [hr]
    · have hm' : m ≠ line := Ne.symm hm
      simp [hm, hm']

end SetsMirror

structure Mirrors (index : LabelIndex) : Prop where
  defs : SetsMirror index.defs index.records LabelRecord.defs
  uses : SetsMirror index.uses index.records LabelRecord.uses

theorem mirrors_empty (count : Nat) : Mirrors { lineCount := count } where
  defs := .empty
  uses := .empty

theorem Mirrors.ext {a b : LabelIndex} (ha : Mirrors a) (hb : Mirrors b)
    (hr : ∀ n : Nat, a.records[n]? = b.records[n]?) (hc : a.lineCount = b.lineCount) : a = b := by
  have hrecords : a.records = b.records := Std.ExtTreeMap.ext_getElem? hr
  have hdefs : a.defs = b.defs := ha.defs.unique (hrecords ▸ hb.defs)
  have huses : a.uses = b.uses := ha.uses.unique (hrecords ▸ hb.uses)
  cases a
  cases b
  simp_all

/-- What the index stores for a line with this record. -/
def kept (record : LabelRecord) : Option LabelRecord :=
  if record.isEmpty then none else some record

variable {index : LabelIndex} {line : Nat} {record : LabelRecord}

@[simp] theorem insertLine_lineCount : (index.insertLine line record).lineCount = index.lineCount := by
  unfold insertLine
  split <;> rfl

@[simp] theorem removeLine_lineCount : (index.removeLine line).lineCount = index.lineCount := by
  unfold removeLine
  split <;> rfl

theorem insertLine_records (n : Nat) : (index.insertLine line record).records[n]? =
    if n = line then (kept record).or index.records[n]? else index.records[n]? := by
  unfold insertLine kept
  by_cases he : record.isEmpty
  · simp [he]
  · by_cases hn : n = line
    · subst n
      simp [he]
    · rw [if_neg he, Std.ExtTreeMap.getElem?_insert, if_neg (by simpa using Ne.symm hn), if_neg hn]

theorem removeLine_records (n : Nat) :
    (index.removeLine line).records[n]? = if n = line then none else index.records[n]? := by
  unfold removeLine
  by_cases hn : n = line
  · subst n
    split
    · next h => simpa using h
    · simp
  · rw [if_neg hn]
    split
    · rfl
    · rw [Std.ExtTreeMap.getElem?_erase, if_neg (by simpa using Ne.symm hn)]

theorem Mirrors.insertLine (h : Mirrors index) (hl : index.records[line]? = none) :
    Mirrors (index.insertLine line record) := by
  unfold LabelIndex.insertLine
  split
  · exact h
  · exact ⟨h.defs.insert hl, h.uses.insert hl⟩

theorem Mirrors.removeLine (h : Mirrors index) : Mirrors (index.removeLine line) := by
  unfold LabelIndex.removeLine
  split
  · exact h
  · next hr => exact ⟨h.defs.erase hr, h.uses.erase hr⟩

/-- Scanning a line anew replaces its record and nothing else. -/
theorem replaceLine_records (n : Nat) :
    ((index.removeLine line).insertLine line record).records[n]? =
      if n = line then kept record else index.records[n]? := by
  rw [insertLine_records, removeLine_records]
  split_ifs <;> simp

theorem Mirrors.replaceLine (h : Mirrors index) :
    Mirrors ((index.removeLine line).insertLine line record) := by
  apply h.removeLine.insertLine
  rw [removeLine_records, if_pos rfl]

end AsmOutline.LabelIndex
