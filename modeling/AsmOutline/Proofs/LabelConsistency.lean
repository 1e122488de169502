import AsmOutline.Proofs.LabelEdits
import AsmOutline.Proofs.TokenOrder

/-! # The index is consistent whatever it is told

An edit may name the wrong lines, or a source that has nothing to do with the one before.
The published index may then be out of date, but its parts never disagree: each map mirrors
the records, nothing empty is kept, no record lies past the last line, and no two sites of a
line start at the same offset. Nothing of this depends on the text of the lines, so that it
passes from one line scanned anew to the next, and from call to call.
-/
namespace AsmOutline
open Text

namespace LabelRecord

/-- Where the sites of a line start, the definitions first. -/
def starts (record : LabelRecord) : List Nat :=
  (record.defs ++ record.uses).map LabelSite.start

theorem starts_ofTokens_perm (line : Text) (parent : Option Text) (tokens : List Token) :
    (ofTokens line parent tokens).starts.Perm (tokens.map Token.start) := by
  induction tokens generalizing parent with
  | nil => exact .refl _
  | cons token tokens ih =>
    unfold ofTokens
    dsimp only
    split_ifs
    · exact (ih _).cons token.start
    · simp only [starts, List.map_append, List.map_cons] at ih ⊢
      exact List.perm_middle.trans ((ih _).cons token.start)

theorem starts_scan_nodup (t : Tokenizer) (parent : Option Text) (line : Text) :
    (scan t parent line).starts.Nodup := by
  have hstarts : ((t.labelTokens line).map Token.start).Nodup := by
    apply List.pairwise_map.2
    exact (t.labelTokens_pairwise_start line).imp Nat.ne_of_lt
  exact (starts_ofTokens_perm line parent _).nodup_iff.2 hstarts

end LabelRecord

namespace LabelIndex
open LabelRecord

/-- The parts of an index agree with each other. -/
structure Consistent (index : LabelIndex) : Prop extends Mirrors index where
  nonempty : ∀ (line : Nat) (record : LabelRecord), index.records[line]? = some record → record.isEmpty = false
  below : ∀ (line : Nat) (record : LabelRecord), index.records[line]? = some record → line < index.lineCount
  starts_nodup : ∀ (line : Nat) (record : LabelRecord), index.records[line]? = some record → record.starts.Nodup

theorem kept_eq_some_iff {record found : LabelRecord} :
    kept record = some found ↔ record.isEmpty = false ∧ record = found := by
  unfold kept
  cases record.isEmpty <;> simp

variable {t : Tokenizer} {source : Source} {index : LabelIndex}

theorem consistent_empty (count : Nat) : Consistent { lineCount := count } where
  toMirrors := mirrors_empty count
  nonempty line record h := by simp at h
  below line record h := by simp at h
  starts_nodup line record h := by simp at h

theorem consistent_build (t : Tokenizer) (source : Source) : Consistent (build t source) where
  toMirrors := build_mirrors t source
  nonempty line record h := by
    rw [build_records, kept_eq_some_iff] at h
    exact h.2 ▸ h.1
  below line record h := by
    rw [build_records, kept_eq_some_iff] at h
    rw [build_lineCount]
    apply Nat.lt_of_not_le
    intro hpast
    have hempty : (recordAt t source line).isEmpty = true := by
      rw [recordAt, Source.line_of_le hpast]
      rfl
    exact Bool.false_ne_true (h.1.symm.trans hempty)
  starts_nodup line record h := by
    rw [build_records, kept_eq_some_iff] at h
    rw [← h.2]
    exact starts_scan_nodup t _ _

/-- Scanning one line anew, under whatever parent and whatever text. -/
theorem Consistent.replaceLine {line : Nat} (h : Consistent index) (hl : line < index.lineCount)
    (parent : Option Text) (text : Text) :
    Consistent ((index.removeLine line).insertLine line (scan t parent text)) := by
  have hrecord (n : Nat) (record : LabelRecord)
      (hn : ((index.removeLine line).insertLine line (scan t parent text)).records[n]? = some record) :
      (n = line ∧ record.isEmpty = false ∧ scan t parent text = record) ∨ index.records[n]? = some record := by
    rw [replaceLine_records] at hn
    by_cases he : n = line
    · rw [if_pos he, kept_eq_some_iff] at hn
      exact .inl ⟨he, hn.2 ▸ hn.1, hn.2⟩
    · rw [if_neg he] at hn
      exact .inr hn
  constructor
  case toMirrors => exact h.toMirrors.replaceLine
  case nonempty =>
    intro n record hn
    rcases hrecord n record hn with ⟨_, hempty, _⟩ | hold
    · exact hempty
    · exact h.nonempty n record hold
  case below =>
    intro n record hn
    rw [insertLine_lineCount, removeLine_lineCount]
    rcases hrecord n record hn with ⟨rfl, _, _⟩ | hold
    · exact hl
    · exact h.below n record hold
  case starts_nodup =>
    intro n record hn
    rcases hrecord n record hn with ⟨_, _, rfl⟩ | hold
    · exact starts_scan_nodup t parent text
    · exact h.starts_nodup n record hold

/-- The lines of a range, one after the other, until the range is done or the whole source
is scanned. -/
theorem Consistent.updateFrom {count line : Nat} (h : Consistent index) (hc : index.lineCount = source.lineCount)
    (hb : count = 0 ∨ line + count ≤ index.lineCount) :
    Consistent (updateFrom t source count line index) ∧
      (LabelIndex.updateFrom t source count line index).lineCount = source.lineCount := by
  induction count generalizing line index with
  | zero => exact ⟨h, hc⟩
  | succ count ih =>
    rw [LabelIndex.updateFrom]
    split_ifs
    · exact ⟨consistent_build t source, build_lineCount t source⟩
    · apply ih
      · exact h.replaceLine (by omega) _ _
      · simpa using hc
      · simp only [insertLine_lineCount, removeLine_lineCount]
        omega

theorem Consistent.updateLines (h : Consistent index) (hc : index.lineCount = source.lineCount) (range : Span) :
    Consistent (index.updateLines t source range) ∧
      (index.updateLines t source range).lineCount = source.lineCount := by
  apply h.updateFrom hc
  omega

end LabelIndex

namespace LabelTracker

/-- A call that brings a source. -/
inductive Update
  | rebuild (source : Source)
  | edit (change : Edit)
  | reset (source : Source)
  deriving DecidableEq

def Update.source : Update → Source
  | .rebuild source => source
  | .edit change => change.source
  | .reset source => source

def update (tracker : LabelTracker) (u : Update) (elapsed : Duration) : LabelTracker :=
  match u with
  | .rebuild source => tracker.rebuild source elapsed
  | .edit change => tracker.onEdit change elapsed
  | .reset source => tracker.reset source elapsed

/-- An update together with the time that it took. -/
abbrev TimedUpdate := Update × Duration

def afterUpdates (tracker : LabelTracker) (updates : List TimedUpdate) : LabelTracker :=
  updates.foldl (fun tracker u => tracker.update u.1 u.2) tracker

/-- All that publishing an index can do. -/
theorem install_cases (tracker : LabelTracker) (index : LabelIndex) (elapsed : Duration) :
    tracker.enabled = false ∧ tracker.install index elapsed = tracker ∨
    tracker.enabled = true ∧ elapsed.exceeds tracker.limits.threshold = false ∧
      tracker.install index elapsed = { tracker with index := index } ∨
    tracker.enabled = true ∧ elapsed.exceeds tracker.limits.threshold = true ∧
      tracker.install index elapsed =
        { tracker with enabled := false, index := {}, notices := tracker.notices ++ [.labelsTooSlow elapsed] } := by
  unfold install checkElapsed
  cases tracker.enabled <;> cases elapsed.exceeds tracker.limits.threshold <;> simp

/-- The index is consistent, and while the tracker is on it counts the lines of the source
that was brought last. -/
structure Holds (tracker : LabelTracker) (last : Option Source) : Prop where
  consistent : tracker.index.Consistent
  lineCount : tracker.enabled = true → ∀ source, last = some source → tracker.index.lineCount = source.lineCount

namespace Holds

variable {tracker : LabelTracker} {last : Option Source} {source : Source} {index : LabelIndex}

theorem install (h : tracker.index.Consistent) (hi : index.Consistent) (hc : index.lineCount = source.lineCount)
    (elapsed : Duration) : Holds (tracker.install index elapsed) (some source) := by
  have hcount (other : Source) (ho : some source = some other) : index.lineCount = other.lineCount := by
    rw [hc, Option.some.inj ho]
  rcases tracker.install_cases index elapsed with ⟨hoff, hin⟩ | ⟨_, _, hin⟩ | ⟨_, _, hin⟩
  · rw [hin]
    exact ⟨h, fun hon => absurd (hon.symm.trans hoff) (by decide)⟩
  · rw [hin]
    exact ⟨hi, fun _ => hcount⟩
  · rw [hin]
    exact ⟨LabelIndex.consistent_empty 0, fun hon => absurd hon Bool.false_ne_true⟩

theorem rebuild (h : tracker.index.Consistent) (source : Source) (elapsed : Duration) :
    Holds (tracker.rebuild source elapsed) (some source) :=
  install h (LabelIndex.consistent_build _ source) (LabelIndex.build_lineCount _ source) elapsed

/-- An edit in place is only followed where the number of lines is the one of the index. -/
theorem onEdit (h : tracker.index.Consistent) (edit : Edit) (elapsed : Duration) :
    Holds (tracker.onEdit edit elapsed) (some edit.source) := by
  unfold LabelTracker.onEdit
  split_ifs with hcount
  · exact rebuild h edit.source elapsed
  · have hsame : tracker.index.lineCount = edit.source.lineCount := not_not.1 (not_or.1 hcount).2
    obtain ⟨hnext, hlines⟩ := h.updateLines hsame edit.changed
    exact install h hnext hlines elapsed

theorem update (h : Holds tracker last) (u : TimedUpdate) : Holds (tracker.update u.1 u.2) (some u.1.source) := by
  obtain ⟨u, elapsed⟩ := u
  cases u with
  | rebuild source => exact rebuild h.consistent source elapsed
  | edit change => exact onEdit h.consistent change elapsed
  | reset source =>
    have hempty : ({ tracker with enabled := true, index := {} } : LabelTracker).index.Consistent :=
      LabelIndex.consistent_empty 0
    exact rebuild hempty source elapsed

theorem afterUpdates (h : Holds tracker last) (updates : List TimedUpdate) :
    Holds (tracker.afterUpdates updates) ((updates.getLast?.map (·.1.source)).or last) := by
  induction updates generalizing tracker last with
  | nil => exact h
  | cons u updates ih =>
    have hrest := ih (h.update u)
    have hlast : ((u :: updates).getLast?.map (·.1.source)).or last =
        (updates.getLast?.map (·.1.source)).or (some u.1.source) := by
      rw [List.getLast?_cons]
      cases updates.getLast? <;> rfl
    rw [hlast]
    exact hrest

end Holds

/-- After any updates, true to the facts or not and however long they took, the published
index is consistent, and while the tracker is on it has as many lines as the source of the
last update. -/
theorem index_consistent_after_updates (t : Tokenizer) (limits : SpeedLimits) (updates : List TimedUpdate) :
    let tracker := afterUpdates { tokenizer := t, limits := limits } updates
    tracker.index.Consistent ∧
      ∀ last, updates.getLast? = some last → tracker.enabled = true →
        tracker.index.lineCount = last.1.source.lineCount := by
  intro tracker
  let start : LabelTracker := { tokenizer := t, limits := limits }
  have hstart : Holds start none := ⟨LabelIndex.consistent_empty 0, by simp⟩
  have hrun := hstart.afterUpdates updates
  refine ⟨hrun.consistent, ?_⟩
  intro last hlast hon
  exact hrun.lineCount hon last.1.source (by simp [hlast])

/-- The edit names the last line only, although the first one has changed. -/
def misreported : List TimedUpdate :=
  let source : Source := ⟨["a:".toList, ".x:".toList, "jmp .x".toList]⟩
  let renamed : Source := ⟨["b:".toList, ".x:".toList, "jmp .x".toList]⟩
  [(.rebuild source, ⟨1⟩), (.edit ⟨⟨2, 3⟩, 0, renamed⟩, ⟨1⟩)]

theorem index_consistent_after_misreported :
    let t : Tokenizer := ⟨.ofEntries [{ name := "JMP".toList, kind := .jump }], {}⟩
    let tracker := afterUpdates { tokenizer := t, limits := {} } misreported
    tracker.enabled = true ∧ tracker.index.hasLabel "a".toList = true ∧
      tracker.index.hasLabel "b".toList = false ∧ tracker.index.Consistent ∧ tracker.index.lineCount = 3 := by
  intro t tracker
  have hon : tracker.enabled = true := by decide
  obtain ⟨hconsistent, hcount⟩ := index_consistent_after_updates t {} misreported
  exact ⟨hon, by decide, by decide, hconsistent, hcount _ rfl hon⟩

end LabelTracker
end AsmOutline
