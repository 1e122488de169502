import AsmOutline.Fold.Region
import AsmOutline.Proofs.SortOrder
import Mathlib.Tactic.SplitIfs

/-! # Fold regions are nested

Whatever lines open and close, with or without level hints, of two regions one lies inside
the other, or it follows the other, or it is a sibling that starts on the other's last
line. The invariant says this of the regions that have ended so far, together with how
these lie to the regions that are still open and to the remarks just read.
-/
namespace AsmOutline

/-- How a region may lie to one that starts above it. -/
inductive Placement
  | inside
  | after
  | sibling
  deriving DecidableEq, Repr

def Placement.Holds (a b : Region) : Placement → Prop
  | inside => b.endLine < a.endLine
  | after => a.endLine < b.startLine
  | sibling => a.endLine = b.startLine ∧ a.level = b.level

namespace Region

variable {limit : Nat} {a b r : Region} {regions : List Region}

structure Proper (limit : Nat) (r : Region) : Prop where
  level_pos : 1 ≤ r.level
  start_lt : r.startLine < r.endLine
  end_lt : r.endLine < limit

def Placed (a b : Region) : Prop :=
  b.endLine < a.endLine ∨ a.endLine < b.startLine ∨ a.endLine = b.startLine ∧ a.level = b.level

/-- The region that starts first decides how the other one has to lie. -/
structure Apart (a b : Region) : Prop where
  start_ne : a.startLine ≠ b.startLine
  placed : a.startLine < b.startLine → Placed a b
  placed_symm : b.startLine < a.startLine → Placed b a

theorem Apart.symm (h : Apart a b) : Apart b a :=
  ⟨h.start_ne.symm, h.placed_symm, h.placed⟩

/-- Of the three ways to lie no two go together. -/
theorem Placed.existsUnique (h : Placed a b) (hb : b.Proper limit) :
    ∃! p : Placement, p.Holds a b := by
  have hlt := hb.start_lt
  rcases h with h | h | h
  · refine ⟨.inside, h, ?_⟩
    intro p hp
    cases p <;> simp only [Placement.Holds] at hp ⊢ <;> omega
  · refine ⟨.after, h, ?_⟩
    intro p hp
    cases p <;> simp only [Placement.Holds] at hp ⊢ <;> omega
  · refine ⟨.sibling, h, ?_⟩
    intro p hp
    cases p <;> simp only [Placement.Holds] at hp ⊢ <;> omega

/-- Ended regions of the lines before a limit. -/
structure Laid (limit : Nat) (regions : List Region) : Prop where
  proper : ∀ r ∈ regions, r.Proper limit
  apart : regions.Pairwise Apart

theorem Laid.mono {later : Nat} (h : Laid limit regions) (hl : limit ≤ later) : Laid later regions where
  proper r hr := by
    obtain ⟨hlevel, hstart, hend⟩ := h.proper r hr
    exact ⟨hlevel, hstart, Nat.lt_of_lt_of_le hend hl⟩
  apart := h.apart

theorem Laid.add (h : Laid limit regions) (hr : r.Proper limit) (ha : ∀ a ∈ regions, Apart a r) :
    Laid limit (regions ++ [r]) where
  proper a hm := by
    rcases List.mem_append.1 hm with hm | hm
    · exact h.proper a hm
    · rw [List.mem_singleton.1 hm]
      exact hr
  apart := by
    refine List.pairwise_append.2 ⟨h.apart, List.pairwise_singleton _ _, ?_⟩
    intro a hm b hb
    rw [List.mem_singleton.1 hb]
    exact ha a hm

/-- An ended region starts inside an open one, or it ended where that one starts or before. -/
def Clears (r : Region) (o : OpenRegion) : Prop :=
  o.startLine < r.startLine ∨ r.endLine < o.startLine ∨ r.endLine = o.startLine ∧ r.level = o.level

/-- So nothing is in the way when the open region ends. -/
theorem Clears.apart {line : Nat} {o : OpenRegion} (h : r.Clears o) (hr : r.Proper line) :
    Apart r (o.endAt line) := by
  have hstart := hr.start_lt
  have hend := hr.end_lt
  unfold Clears at h
  constructor
  · show r.startLine ≠ o.startLine
    omega
  · intro hlt
    have hlt' : r.startLine < o.startLine := hlt
    show line < r.endLine ∨ r.endLine < o.startLine ∨ r.endLine = o.startLine ∧ r.level = o.level
    omega
  · intro hlt
    exact .inl hend

end Region

namespace FoldState

/-- The state after the lines before `line`, with the regions that ended there. -/
structure Nested (line : Nat) (state : FoldState) (done : List Region) : Prop extends
    Region.Laid line done where
  opened : ∀ o ∈ state.stack, 1 ≤ o.level ∧ o.startLine < line
  stacked : state.stack.Pairwise (fun inner outer => outer.startLine < inner.startLine)
  clears : ∀ r ∈ done, ∀ o ∈ state.stack, r.Clears o
  run_last : ∀ run, state.run = some run → run.startLine ≤ run.endLine ∧ run.endLine + 1 = line ∧
    (∀ r ∈ done, r.endLine < run.startLine) ∧ ∀ o ∈ state.stack, o.startLine < run.startLine

theorem nested_start : Nested 0 {} [] where
  proper := by simp
  apart := .nil
  opened := by simp
  stacked := .nil
  clears := by simp
  run_last := by simp

namespace Nested

variable {line : Nat} {state : FoldState} {done : List Region}

theorem endRun (h : Nested line state done) : Nested line state.endRun (done ++ state.runRegions) := by
  have hquiet : Nested line state.endRun done :=
    ⟨h.toLaid, h.opened, h.stacked, h.clears, fun run hrun => by cases hrun⟩
  unfold runRegions
  cases hrun : state.run with
  | none => rwa [List.append_nil]
  | some run =>
    obtain ⟨_, hend, hdone, hstack⟩ := h.run_last run hrun
    dsimp only
    split_ifs with hlong
    · have hproper : Region.Proper line
          ⟨state.level + 1, run.startLine, run.offset, run.offset, run.endLine⟩ :=
        ⟨Nat.le_add_left _ _, hlong, by show run.endLine < line; omega⟩
      refine ⟨h.toLaid.add hproper ?_, hquiet.opened, hquiet.stacked, ?_, fun run hrun => by cases hrun⟩
      · intro a ha
        have hstart := (h.proper a ha).start_lt
        have hbefore := hdone a ha
        constructor
        · show a.startLine ≠ run.startLine
          omega
        · intro _
          exact .inr (.inl hbefore)
        · intro hlt
          have hlt' : run.startLine < a.startLine := hlt
          omega
      · intro r hr o ho
        rcases List.mem_append.1 hr with hr | hr
        · exact h.clears r hr o ho
        · rw [List.mem_singleton.1 hr]
          exact .inl (hstack o ho)
    · rwa [List.append_nil]

/-- A line that does nothing. -/
theorem pass (h : Nested line state done) (hrun : state.run = none) : Nested (line + 1) state done where
  toLaid := h.toLaid.mono (Nat.le_succ line)
  opened o ho := ⟨(h.opened o ho).1, Nat.lt_succ_of_lt (h.opened o ho).2⟩
  stacked := h.stacked
  clears := h.clears
  run_last run hr := by
    rw [hrun] at hr
    cases hr

theorem remark (h : Nested line state done) (offset : Nat) :
    Nested (line + 1) (state.remark line offset) done := by
  have hstack : (state.remark line offset).stack = state.stack := by
    unfold FoldState.remark
    split <;> rfl
  refine ⟨h.toLaid.mono (Nat.le_succ line), ?_, hstack ▸ h.stacked, hstack ▸ h.clears, ?_⟩
  · intro o ho
    rw [hstack] at ho
    exact ⟨(h.opened o ho).1, Nat.lt_succ_of_lt (h.opened o ho).2⟩
  · rw [hstack]
    intro run hr
    unfold FoldState.remark at hr
    cases hrun : state.run with
    | some old =>
      obtain ⟨hle, hend, hdone, hopen⟩ := h.run_last old hrun
      simp only [hrun] at hr
      cases hr
      exact ⟨by show old.startLine ≤ line; omega, rfl, hdone, hopen⟩
    | none =>
      simp only [hrun] at hr
      cases hr
      exact ⟨Nat.le_refl _, rfl, fun r hm => (h.proper r hm).end_lt, fun o ho => (h.opened o ho).2⟩

/-- The innermost region ends on this line. -/
theorem pop {top : OpenRegion} {rest : List OpenRegion} (h : Nested line state done) (hrun : state.run = none)
    (hs : state.stack = top :: rest) :
    Nested (line + 1) { state with stack := rest } (done ++ [top.endAt line]) := by
  have hopened := h.opened
  have hstacked := h.stacked
  have hclears := h.clears
  rw [hs] at hopened hstacked hclears
  obtain ⟨hlevel, htop⟩ := hopened top List.mem_cons_self
  obtain ⟨houter, hrest⟩ := List.pairwise_cons.1 hstacked
  have hproper : (top.endAt line).Proper (line + 1) := ⟨hlevel, htop, Nat.lt_succ_self line⟩
  refine ⟨(h.toLaid.mono (Nat.le_succ line)).add hproper ?_, ?_, hrest, ?_, ?_⟩
  · intro r hr
    exact (hclears r hr top List.mem_cons_self).apart (h.proper r hr)
  · intro o ho
    obtain ⟨hpos, hlt⟩ := hopened o (List.mem_cons_of_mem _ ho)
    exact ⟨hpos, Nat.lt_succ_of_lt hlt⟩
  · intro r hr o ho
    rcases List.mem_append.1 hr with hr | hr
    · exact hclears r hr o (List.mem_cons_of_mem _ ho)
    · rw [List.mem_singleton.1 hr]
      exact .inl (houter o ho)
  · intro run hr
    rw [hrun] at hr
    cases hr

/-- A region starts on the line just read. What ended on that line has its level. -/
theorem push {o : OpenRegion} (h : Nested (line + 1) state done) (hrun : state.run = none)
    (hlevel : 1 ≤ o.level) (hline : o.startLine = line) (hs : ∀ outer ∈ state.stack, outer.startLine < line)
    (hd : ∀ r ∈ done, r.endLine < line ∨ r.endLine = line ∧ r.level = o.level) :
    Nested (line + 1) { state with stack := o :: state.stack } done := by
  subst hline
  refine ⟨h.toLaid, ?_, List.pairwise_cons.2 ⟨hs, h.stacked⟩, ?_, ?_⟩
  · intro inner hi
    rcases List.mem_cons.1 hi with rfl | hi
    · exact ⟨hlevel, Nat.lt_succ_self _⟩
    · exact h.opened inner hi
  · intro r hr inner hi
    rcases List.mem_cons.1 hi with rfl | hi
    · exact .inr (hd r hr)
    · exact h.clears r hr inner hi
  · intro run hr
    rw [hrun] at hr
    cases hr

theorem openRegion {hint : Option Nat} (h : Nested line state done) (hrun : state.run = none)
    (hh : ∀ level, hint = some level → 1 ≤ level) (offset previewOffset : Nat) :
    Nested (line + 1) (state.openRegion line hint offset previewOffset).1
      (done ++ (state.openRegion line hint offset previewOffset).2) := by
  have hlevel : 1 ≤ hint.getD (state.level + 1) := by
    cases hint with
    | none => exact Nat.le_add_left _ _
    | some level => exact hh level rfl
  have hended : ∀ r ∈ done, r.endLine < line := fun r hr => (h.proper r hr).end_lt
  have hpush := (h.pass hrun).push (o := ⟨hint.getD (state.level + 1), line, offset, previewOffset⟩) hrun
    hlevel rfl (fun outer ho => (h.opened outer ho).2) (fun r hr => .inl (hended r hr))
  unfold FoldState.openRegion
  cases hs : state.stack with
  | nil =>
    rw [hs] at hpush
    simpa using hpush
  | cons top rest =>
    by_cases hsame : top.level = hint.getD (state.level + 1)
    · -- a sibling: the innermost region ends on the line on which the next one starts
      simp only [hsame, if_true]
      have hpop := h.pop hrun hs
      apply hpop.push hrun hlevel rfl
      · intro outer ho
        exact (h.opened outer (hs ▸ List.mem_cons_of_mem _ ho)).2
      · intro r hr
        rcases List.mem_append.1 hr with hr | hr
        · exact .inl (hended r hr)
        · rw [List.mem_singleton.1 hr]
          exact .inr ⟨rfl, hsame⟩
    · simp only [hsame, if_false, List.append_nil]
      rw [hs] at hpush
      exact hpush

theorem close (h : Nested line state done) (hrun : state.run = none) (hint : Option Nat) :
    Nested (line + 1) (state.close line hint).1 (done ++ (state.close line hint).2) := by
  unfold FoldState.close
  cases hs : state.stack with
  | nil => simpa using h.pass hrun
  | cons top rest =>
    by_cases hsame : hint.getD top.level = top.level
    · simp only [hsame, if_true]
      exact h.pop hrun hs
    · simp only [hsame, if_false, List.append_nil]
      exact h.pass hrun

end Nested
end FoldState

/-- The level that a line asks for. -/
def LineRole.hint? : LineRole → Option Nat
  | opens level _ _ => level
  | closes level => level
  | _ => none

namespace FoldState

variable {line : Nat} {state : FoldState} {done : List Region} {role : LineRole}

theorem Nested.step (h : Nested line state done) (hh : ∀ level, role.hint? = some level → 1 ≤ level) :
    Nested (line + 1) (state.step line role).1 (done ++ (state.step line role).2) := by
  cases role with
  | remark offset => simpa [FoldState.step] using h.remark offset
  | plain => exact h.endRun.pass rfl
  | opens hint offset previewOffset =>
    have hopen := h.endRun.openRegion rfl hh offset previewOffset
    rw [List.append_assoc] at hopen
    exact hopen
  | closes hint =>
    have hclose := h.endRun.close rfl hint
    rw [List.append_assoc] at hclose
    exact hclose

theorem Nested.regionsFrom {roles : List LineRole} (h : Nested line state done)
    (hh : ∀ role ∈ roles, ∀ level, role.hint? = some level → 1 ≤ level) :
    Region.Laid (line + roles.length) (done ++ state.regionsFrom line roles) := by
  induction roles generalizing line state done with
  | nil => exact h.endRun.toLaid
  | cons role roles ih =>
    have hstep := h.step (hh role List.mem_cons_self)
    have hnext := ih hstep fun later hl => hh later (List.mem_cons_of_mem _ hl)
    rw [List.append_assoc, Nat.add_right_comm] at hnext
    exact hnext

end FoldState

namespace FoldRules

theorem levelHint_pos {digits : Text} {level : Nat} (h : levelHint digits = some level) : 1 ≤ level := by
  unfold levelHint at h
  split_ifs at h
  have hrange := (Option.filter_eq_some_iff.1 h).2
  simp only [Bool.and_eq_true, decide_eq_true_eq] at hrange
  exact hrange.1

theorem tagRole?_hint {isBegin : Bool} {tag line : Text} {role : LineRole} {level : Nat}
    (h : tagRole? isBegin tag line = some role) (hl : role.hint? = some level) : 1 ≤ level := by
  unfold tagRole? at h
  split_ifs at h
  · obtain ⟨place, _, rfl⟩ := Option.map_eq_some_iff.1 h
    exact levelHint_pos hl
  · obtain ⟨place, _, rfl⟩ := Option.map_eq_some_iff.1 h
    exact levelHint_pos hl

theorem byDirectives_hint (rules : FoldRules) (line : Text) (tokens : List Token) :
    (rules.byDirectives line tokens).hint? = none := by
  induction tokens with
  | nil => rfl
  | cons token tokens ih =>
    unfold byDirectives
    dsimp only
    split_ifs
    · exact ih
    · rfl
    · rfl
    · exact ih

theorem byTags?_cases {rules : FoldRules} {line : Text} {role : LineRole} (h : rules.byTags? line = some role) :
    ∃ isBegin tag, tagRole? isBegin tag (Text.lower line) = some role := by
  unfold byTags? at h
  dsimp only at h
  split_ifs at h
  · rcases Option.or_eq_some_iff.1 h with h | ⟨_, h⟩
    · exact ⟨_, _, h⟩
    · exact ⟨_, _, h⟩
  · rcases Option.or_eq_some_iff.1 h with h | ⟨_, h⟩
    · exact ⟨_, _, h⟩
    · exact ⟨_, _, h⟩

/-- Only tags ask for levels, and the lowest level is one. -/
theorem role_hint_pos {rules : FoldRules} {t : Tokenizer} {line : Text} {level : Nat}
    (h : (rules.role t line).hint? = some level) : 1 ≤ level := by
  unfold role at h
  cases hb : rules.byTags? line with
  | some role =>
    rw [hb] at h
    obtain ⟨isBegin, tag, htag⟩ := byTags?_cases hb
    exact tagRole?_hint htag h
  | none =>
    rw [hb] at h
    dsimp only at h
    split_ifs at h
    · cases h
    · rw [byDirectives_hint] at h
      cases h

end FoldRules

namespace Region

theorem before_iff (a b : Region) : before a b = true ↔
    a.startLine < b.startLine ∨ a.startLine = b.startLine ∧
      (a.level < b.level ∨ a.level = b.level ∧ a.endLine ≤ b.endLine) := by
  simp [before]

theorem before_total (a b : Region) : before a b = true ∨ before b a = true := by
  rw [before_iff, before_iff]
  omega

theorem before_trans (a b c : Region) : before a b = true → before b c = true → before a c = true := by
  rw [before_iff, before_iff, before_iff]
  omega

theorem sorted_before (regions : List Region) :
    (sortStable before regions).Pairwise (fun a b => before a b = true) :=
  sortStable_pairwise before_total before_trans regions

theorem ofSource_laid (rules : FoldRules) (t : Tokenizer) (source : Source) :
    Laid source.lineCount (ofSource rules t source) := by
  have hhints : ∀ role ∈ source.lines.map (rules.role t), ∀ level, role.hint? = some level → 1 ≤ level := by
    intro role hr level hl
    obtain ⟨line, _, rfl⟩ := List.mem_map.1 hr
    exact FoldRules.role_hint_pos hl
  have hlaid := FoldState.nested_start.regionsFrom hhints
  rw [Nat.zero_add, List.length_map, List.nil_append] at hlaid
  have hperm := sortStable_perm before (FoldState.regionsFrom {} 0 (source.lines.map (rules.role t)))
  exact ⟨fun r hr => hlaid.proper r (hperm.mem_iff.1 hr), (hperm.pairwise_iff Apart.symm).2 hlaid.apart⟩

/-- The regions of a source are nested, whatever its lines hold. -/
theorem ofSource_wellNested (rules : FoldRules) (t : Tokenizer) (source : Source) :
    (ofSource rules t source).Pairwise (fun a b => a.startLine < b.startLine) ∧
      (∀ r ∈ ofSource rules t source,
        1 ≤ r.level ∧ r.startLine < r.endLine ∧ r.endLine < source.lineCount) ∧
      ∀ a ∈ ofSource rules t source, ∀ b ∈ ofSource rules t source, a.startLine < b.startLine →
        ∃! p : Placement, p.Holds a b := by
  have hlaid := ofSource_laid rules t source
  have hstarts : (ofSource rules t source).Pairwise (fun a b => a.startLine < b.startLine) := by
    apply ((sorted_before _).and hlaid.apart).imp
    intro a b hab
    have hne := hab.2.start_ne
    have hle := (before_iff a b).1 hab.1
    omega
  refine ⟨hstarts, ?_, ?_⟩
  · intro r hr
    exact ⟨(hlaid.proper r hr).level_pos, (hlaid.proper r hr).start_lt, (hlaid.proper r hr).end_lt⟩
  · intro a ha b hb hlt
    have hplaced : Placed a b := by
      rcases eq_or_rel_of_pairwise hlaid.apart ha hb with rfl | hab | hba
      · omega
      · exact hab.placed hlt
      · exact hba.placed_symm hlt
    exact hplaced.existsUnique (hlaid.proper b hb)

end Region
end AsmOutline
