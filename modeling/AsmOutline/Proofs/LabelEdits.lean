import AsmOutline.Label.Tracker
import AsmOutline.Proofs.LabelScope

/-! # Edits in place agree with a full scan

A line scanned anew may open another label than before; then every local label below it
has a new key, and the whole source is scanned. Otherwise no parent changes anywhere, so
only the record of that line does. Line by line the index passes through the indexes of
the sources between the old one and the new one.
-/
namespace AsmOutline
open Text

namespace Source

variable {source : Source}

theorem ext_line {a b : Source} (hc : a.lineCount = b.lineCount) (h : ∀ n, a.line n = b.line n) :
    a = b := by
  cases a with
  | mk xs =>
    cases b with
    | mk ys =>
      congr 1
      apply List.ext_getElem hc
      intro n hx hy
      have hn := h n
      simpa [line, hx, hy] using hn

@[simp] theorem lineCount_setLine (n : Nat) (text : Text) :
    (source.setLine n text).lineCount = source.lineCount := by
  simp [lineCount, setLine]

theorem line_setLine {n : Nat} (hn : n < source.lineCount) (text : Text) (m : Nat) :
    (source.setLine n text).line m = if m = n then text else source.line m := by
  rw [line, line, setLine, List.getD_eq_getElem?_getD, List.getD_eq_getElem?_getD, List.getElem?_set]
  by_cases hm : m = n
  · subst m
    simp [show n < source.lines.length from hn]
  · simp [hm, Ne.symm hm]

end Source

namespace LabelIndex
open LabelRecord

variable {t : Tokenizer} {source : Source}

theorem parentAt_congr {a b : Source} (h : ∀ n, openedBy t (a.line n) = openedBy t (b.line n)) (n : Nat) :
    parentAt t a n = parentAt t b n := by
  induction n with
  | zero => rfl
  | succ n ih => rw [parentAt, parentAt, h, ih]

/-- A new text for one line that opens the same label as before changes one record. -/
theorem recordAt_setLine {line : Nat} {text : Text} (hl : line < source.lineCount)
    (ho : openedBy t text = openedBy t (source.line line)) (n : Nat) :
    recordAt t (source.setLine line text) n =
      if n = line then scan t (parentAt t source line) text else recordAt t source n := by
  have hopen : ∀ m, openedBy t ((source.setLine line text).line m) = openedBy t (source.line m) := by
    intro m
    rw [Source.line_setLine hl]
    split_ifs with hm
    · rw [ho, hm]
    · rfl
  rw [recordAt, parentAt_congr hopen, Source.line_setLine hl]
  split_ifs with hn
  · rw [hn]
  · rfl

theorem replaceLine_build {line : Nat} {text : Text} (hl : line < source.lineCount)
    (ho : openedBy t text = openedBy t (source.line line)) :
    ((build t source).removeLine line).insertLine line (scan t (parentAt t source line) text) =
      build t (source.setLine line text) := by
  apply (build_mirrors t source).replaceLine.ext (build_mirrors t _)
  · intro n
    rw [replaceLine_records, build_records, build_records, recordAt_setLine hl ho]
    split_ifs <;> rfl
  · simp

theorem old_opens (t : Tokenizer) (source : Source) (line : Nat) :
    ((build t source).records[line]?.getD {}).opens = openedBy t (source.line line) := by
  have h : ((build t source).records[line]?.getD {}).opens =
      (build t source).records[line]?.bind LabelRecord.opens := by
    cases (build t source).records[line]? <;> rfl
  rw [h, build_records, recordAt, kept_scan_opens]

/-- `middle` has the new lines before `line` and the old ones from there on, so the index
in hand is its index, until the range is done or a changed parent forces a full scan. -/
theorem updateFrom_build (count line : Nat) (middle : Source)
    (hc : middle.lineCount = source.lineCount) (hb : count = 0 ∨ line + count ≤ source.lineCount)
    (hs : ∀ n, ¬(line ≤ n ∧ n < line + count) → middle.line n = source.line n) :
    updateFrom t source count line (build t middle) = build t source := by
  induction count generalizing line middle with
  | zero =>
    have hm : middle = source := Source.ext_line hc fun n => hs n (by omega)
    rw [updateFrom, hm]
  | succ count ih =>
    have hl : line < middle.lineCount := by omega
    rw [updateFrom]
    rw [old_opens, scan_opens, parentBefore_eq (build_records t middle)]
    split_ifs with ho
    · rfl
    · have ho' : openedBy t (source.line line) = openedBy t (middle.line line) :=
        (not_not.1 ho).symm
      rw [replaceLine_build hl ho']
      apply ih
      · rw [Source.lineCount_setLine, hc]
      · right
        omega
      · intro n hn
        rw [Source.line_setLine hl]
        split_ifs with he
        · rw [he]
        · exact hs n (by omega)

theorem updateLines_build {old : Source} (range : Span) (hc : old.lineCount = source.lineCount)
    (hs : ∀ n, ¬(range.start ≤ n ∧ n < range.stop) → source.line n = old.line n) :
    (build t old).updateLines t source range = build t source := by
  unfold updateLines
  rw [build_lineCount]
  apply updateFrom_build _ _ _ hc
  · omega
  · intro n hn
    by_cases hr : range.start ≤ n ∧ n < range.stop
    · -- only lines past the end are left out of the range
      have hpast : source.lineCount ≤ n := by omega
      rw [Source.line_of_le hpast, Source.line_of_le (hc ▸ hpast)]
    · exact (hs n hr).symm

end LabelIndex

/-- Where an edit leaves the number of lines alone, the lines it does not name are the old
ones. Of any other edit nothing is asked, and the named lines may reach past the end. -/
def Edit.Honest (edit : Edit) (old : Source) : Prop :=
  edit.growth = 0 → edit.source.lineCount = old.lineCount →
    ∀ n, ¬(edit.changed.start ≤ n ∧ n < edit.changed.stop) → edit.source.line n = old.line n

namespace LabelTracker

/-- An edit together with the time that following it took. -/
abbrev TimedEdit := Edit × Duration

def ofSource (t : Tokenizer) (limits : SpeedLimits) (source : Source) (elapsed : Duration) : LabelTracker :=
  rebuild { tokenizer := t, limits := limits } source elapsed

def afterEdits (tracker : LabelTracker) (edits : List TimedEdit) : LabelTracker :=
  edits.foldl (fun tracker edit => tracker.onEdit edit.1 edit.2) tracker

def sourceAfter (source : Source) (edits : List TimedEdit) : Source :=
  edits.foldl (fun _ edit => edit.1.source) source

/-- Every edit is honest about the source that the edits before it left. -/
def HonestRun : Source → List TimedEdit → Prop
  | _, [] => True
  | source, edit :: edits => edit.1.Honest source ∧ HonestRun edit.1.source edits

/-- The published index is the one that a full scan of the source gives. -/
structure Tracks (tracker : LabelTracker) (source : Source) : Prop where
  enabled : tracker.enabled = true
  index_eq : tracker.index = .build tracker.tokenizer source

variable {tracker : LabelTracker} {source : Source} {elapsed : Duration}

theorem install_of_quick (he : tracker.enabled = true)
    (hq : elapsed.exceeds tracker.limits.threshold = false) (index : LabelIndex) :
    tracker.install index elapsed = { tracker with index := index } := by
  simp [install, checkElapsed, he, hq]

theorem Tracks.rebuild (he : tracker.enabled = true)
    (hq : elapsed.exceeds tracker.limits.threshold = false) :
    Tracks (tracker.rebuild source elapsed) source := by
  rw [LabelTracker.rebuild, install_of_quick he hq]
  exact ⟨he, rfl⟩

theorem onEdit_of_quick (edit : Edit) (he : tracker.enabled = true)
    (hq : elapsed.exceeds tracker.limits.threshold = false) :
    ∃ index, tracker.onEdit edit elapsed = { tracker with index := index } := by
  unfold onEdit LabelTracker.rebuild
  split
  · exact ⟨_, install_of_quick he hq _⟩
  · exact ⟨_, install_of_quick he hq _⟩

/-- One edit: a changed number of lines means a full scan, and otherwise the edit in place
comes to the same. -/
theorem Tracks.onEdit {edit : Edit} (h : Tracks tracker source) (hh : edit.Honest source)
    (hq : elapsed.exceeds tracker.limits.threshold = false) :
    Tracks (tracker.onEdit edit elapsed) edit.source := by
  unfold LabelTracker.onEdit
  split_ifs with hc
  · exact .rebuild h.enabled hq
  · rw [install_of_quick h.enabled hq]
    refine ⟨h.enabled, ?_⟩
    rw [h.index_eq, LabelIndex.build_lineCount, not_or, not_not, not_not] at hc
    dsimp only
    rw [h.index_eq]
    exact LabelIndex.updateLines_build edit.changed hc.2 (hh hc.1 hc.2.symm)

theorem Tracks.afterEdits {edits : List TimedEdit} (h : Tracks tracker source)
    (hq : ∀ edit ∈ edits, edit.2.exceeds tracker.limits.threshold = false)
    (hh : HonestRun source edits) :
    Tracks (tracker.afterEdits edits) (sourceAfter source edits) ∧
      (tracker.afterEdits edits).tokenizer = tracker.tokenizer := by
  induction edits generalizing tracker source with
  | nil => exact ⟨h, rfl⟩
  | cons edit edits ih =>
    have hfirst := hq edit List.mem_cons_self
    obtain ⟨index, hindex⟩ := onEdit_of_quick edit.1 h.enabled hfirst
    have hnext := h.onEdit hh.1 hfirst
    rw [hindex] at hnext
    have hrest := ih hnext (fun later hl => hq later (List.mem_cons_of_mem _ hl)) hh.2
    rw [LabelTracker.afterEdits, List.foldl_cons, hindex]
    exact hrest

theorem HonestRun.take {edits : List TimedEdit} (h : HonestRun source edits) (k : Nat) :
    HonestRun source (edits.take k) := by
  induction edits generalizing source k with
  | nil => simpa using h
  | cons edit edits ih =>
    cases k with
    | zero => trivial
    | succ k => exact ⟨h.1, ih h.2 k⟩

/-- After each edit of a run the tracker holds the index of the source of that moment. -/
theorem index_after_edits (t : Tokenizer) (limits : SpeedLimits) (source : Source) (opening : Duration)
    (edits : List TimedEdit) (ho : opening.exceeds limits.threshold = false)
    (hq : ∀ edit ∈ edits, edit.2.exceeds limits.threshold = false) (hh : HonestRun source edits) (k : Nat) :
    ((ofSource t limits source opening).afterEdits (edits.take k)).index =
      .build t (sourceAfter source (edits.take k)) := by
  let start : LabelTracker := { tokenizer := t, limits := limits }
  have hstart : start.rebuild source opening = { start with index := .build t source } :=
    install_of_quick rfl ho _
  have hopen : Tracks (start.rebuild source opening) source := .rebuild rfl ho
  rw [hstart] at hopen
  have hrun := hopen.afterEdits (fun edit he => hq edit (List.mem_of_mem_take he)) (hh.take k)
  rw [ofSource, hstart, hrun.1.index_eq, hrun.2]

/-- A parent is renamed, by an edit that names lines past the end, and then a line is added. -/
def renameAndGrow : List TimedEdit :=
  let renamed : Source := ⟨["b:".toList, ".x:".toList, "jmp .x".toList]⟩
  let grown : Source := ⟨"jmp b.x".toList :: renamed.lines⟩
  [(⟨⟨0, 9⟩, 0, renamed⟩, ⟨1⟩), (⟨⟨0, 1⟩, 1, grown⟩, ⟨1⟩)]

theorem index_after_renameAndGrow :
    let t : Tokenizer := ⟨.ofEntries [{ name := "JMP".toList, kind := .jump }], {}⟩
    let source : Source := ⟨["a:".toList, ".x:".toList, "jmp .x".toList]⟩
    HonestRun source renameAndGrow ∧
      ((ofSource t {} source ⟨1⟩).afterEdits (renameAndGrow.take 2)).index =
        .build t (sourceAfter source (renameAndGrow.take 2)) := by
  intro t source
  have hh : HonestRun source renameAndGrow := by
    refine ⟨?_, ?_, trivial⟩
    · intro _ _ n hn
      have hn' : 9 ≤ n := by
        simpa [renameAndGrow] using hn
      rw [Source.line_of_le (Nat.le_trans (by decide) hn'), Source.line_of_le (Nat.le_trans (by decide) hn')]
    · intro hg
      exact absurd hg (by decide)
  exact ⟨hh, index_after_edits t {} source ⟨1⟩ renameAndGrow (by decide) (by decide) hh 2⟩

end LabelTracker
end AsmOutline
