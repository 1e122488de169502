import AsmOutline.Proofs.LineBrackets
import AsmOutline.Proofs.RegionNesting
import AsmOutline.Proofs.TokenOrder

/-! # Without level hints, regions are matched brackets

The regions of a source whose tags ask for no levels are its matched pairs of lines and
its runs of two or more remarks. After each line the stack holds the opening lines that
still wait, and what has ended so far are the pairs and the runs of the lines read.
-/
namespace AsmOutline
open LineRole

def LineRole.RemarkAt (roles : List LineRole) (n : Nat) : Prop :=
  ∃ offset, roles[n]? = some (.remark offset)

namespace Region

/-- From an opening line to the closing line that matches it. -/
structure IsBlock (roles : List LineRole) (r : Region) : Prop where
  paired : Matches roles r.startLine r.endLine
  opens : ∃ hint, roles[r.startLine]? = some (.opens hint r.startOffset r.previewOffset)
  level_eq : r.level = 1 + depth roles r.startLine

/-- From the first to the last of two or more remarks in a row, with none before or after them. -/
structure IsRemarkRun (roles : List LineRole) (r : Region) : Prop where
  start_lt : r.startLine < r.endLine
  remarks : ∀ n, r.startLine ≤ n → n ≤ r.endLine → RemarkAt roles n
  first : ∀ n, n + 1 = r.startLine → ¬RemarkAt roles n
  last : ¬RemarkAt roles (r.endLine + 1)
  starts : roles[r.startLine]? = some (.remark r.startOffset)
  preview_eq : r.previewOffset = r.startOffset
  level_eq : r.level = 1 + depth roles r.startLine

variable {roles : List LineRole} {role : LineRole} {r : Region}

theorem isBlock_concat : r.IsBlock (roles ++ [role]) ↔ r.IsBlock roles ∨
    r.endLine = roles.length ∧ role.step? = some .D ∧
      (∃ hint, roles[r.startLine]? = some (.opens hint r.startOffset r.previewOffset)) ∧
      Balanced (roles.drop (r.startLine + 1)) ∧ r.level = 1 + depth roles r.startLine := by
  constructor
  · rintro ⟨hm, hopens, hlevel⟩
    have hlt := hm.lt_length
    have hstart := hm.1
    simp only [List.length_append, List.length_singleton] at hlt
    rw [List.getElem?_append_left (by omega)] at hopens
    rw [depth_append (by omega)] at hlevel
    by_cases hend : r.endLine < roles.length
    · exact .inl ⟨(matches_append hend).1 hm, hopens, hlevel⟩
    · have hlast : r.endLine = roles.length := by omega
      rw [hlast] at hm
      obtain ⟨hdown, _, hb⟩ := matches_last.1 hm
      exact .inr ⟨hlast, hdown, hopens, hb, hlevel⟩
  · rintro (⟨hm, hopens, hlevel⟩ | ⟨hlast, hdown, ⟨hint, hopens⟩, hb, hlevel⟩)
    · have hlt := hm.lt_length
      have hstart := hm.1
      refine ⟨(matches_append hlt).2 hm, ?_, ?_⟩
      · rwa [List.getElem?_append_left (by omega)]
      · rwa [depth_append (by omega)]
    · have hm : Matches (roles ++ [role]) r.startLine r.endLine := by
        rw [hlast]
        exact matches_last.2 ⟨hdown, by simp [hopens, step?], hb⟩
      have hstart := hm.1
      refine ⟨hm, ⟨hint, ?_⟩, ?_⟩
      · rwa [List.getElem?_append_left (by omega)]
      · rwa [depth_append (by omega)]

theorem IsRemarkRun.end_lt (h : r.IsRemarkRun roles) : r.endLine < roles.length := by
  obtain ⟨offset, ho⟩ := h.remarks r.endLine (Nat.le_of_lt h.start_lt) (Nat.le_refl _)
  exact (List.getElem?_eq_some_iff.1 ho).1

theorem IsRemarkRun.end_cases (h : r.IsRemarkRun roles) :
    r.endLine + 1 < roles.length ∨ r.endLine + 1 = roles.length :=
  Nat.lt_or_eq_of_le h.end_lt

theorem remarkAt_append {later : List LineRole} {n : Nat} (h : n < roles.length) :
    RemarkAt (roles ++ later) n ↔ RemarkAt roles n := by
  simp only [RemarkAt, List.getElem?_append_left h]

/-- A run that ended before the last line, or right before it when that one is no remark. -/
theorem isRemarkRun_concat (h : r.endLine < roles.length) : r.IsRemarkRun (roles ++ [role]) ↔
    r.IsRemarkRun roles ∧ (r.endLine + 1 = roles.length → ∀ offset, role ≠ .remark offset) := by
  constructor
  · rintro ⟨hlt, hremarks, hfirst, hlast, hstarts, hpreview, hlevel⟩
    rw [List.getElem?_append_left (by omega)] at hstarts
    rw [depth_append (by omega)] at hlevel
    refine ⟨⟨hlt, ?_, ?_, ?_, hstarts, hpreview, hlevel⟩, ?_⟩
    · intro n hn hle
      exact (remarkAt_append (by omega)).1 (hremarks n hn hle)
    · intro n hn hr
      exact hfirst n hn ((remarkAt_append (by omega)).2 hr)
    · rintro ⟨offset, ho⟩
      have hin := (List.getElem?_eq_some_iff.1 ho).1
      exact hlast ((remarkAt_append hin).2 ⟨offset, ho⟩)
    · rintro hend offset rfl
      exact hlast ⟨offset, by simp [hend]⟩
  · rintro ⟨⟨hlt, hremarks, hfirst, hlast, hstarts, hpreview, hlevel⟩, hrole⟩
    refine ⟨hlt, ?_, ?_, ?_, ?_, hpreview, ?_⟩
    · intro n hn hle
      exact (remarkAt_append (by omega)).2 (hremarks n hn hle)
    · intro n hn hr
      exact hfirst n hn ((remarkAt_append (by omega)).1 hr)
    · rintro ⟨offset, ho⟩
      by_cases hin : r.endLine + 1 < roles.length
      · exact hlast ((remarkAt_append hin).1 ⟨offset, ho⟩)
      · have hend : r.endLine + 1 = roles.length := by omega
        exact hrole hend offset (by simpa [hend] using ho)
    · rwa [List.getElem?_append_left (by omega)]
    · rwa [depth_append (by omega)]

end Region

namespace FoldState

/-- Without a hint a region opens one level deeper, so it is never a sibling. -/
theorem openRegion_none (state : FoldState) (line offset previewOffset : Nat) :
    state.openRegion line none offset previewOffset =
      ({ state with stack := ⟨state.level + 1, line, offset, previewOffset⟩ :: state.stack }, []) := by
  unfold openRegion
  cases hs : state.stack with
  | nil => rfl
  | cons top rest => simp [level, hs]

/-- The open regions are the lines that wait. Between one of them and the next, and after
the innermost, all that opened has closed. -/
inductive Stacked : List LineRole → List OpenRegion → Prop
  | clear {lines : List LineRole} : (∀ i, ¬Waits lines lines.length i) → Stacked lines []
  | waiting {lines between : List LineRole} {outer : List OpenRegion} {o : OpenRegion} :
    Stacked lines outer → Balanced between → o.startLine = lines.length →
      o.level = outer.length + 1 →
      Stacked (lines ++ .opens none o.startOffset o.previewOffset :: between) (o :: outer)

namespace Stacked

variable {lines : List LineRole} {stack : List OpenRegion} {role : LineRole} {i : Nat}

theorem append_balanced {between : List LineRole} (h : Stacked lines stack) (hb : Balanced between) :
    Stacked (lines ++ between) stack := by
  cases h with
  | clear hno => exact .clear fun i hw => hno i ((waits_append_balanced hb).1 hw)
  | waiting hq hb' hstart hlevel =>
    rw [List.append_assoc, List.cons_append]
    exact .waiting hq (hb'.append hb) hstart hlevel

theorem push (h : Stacked lines stack) (offset previewOffset : Nat) :
    Stacked (lines ++ [.opens none offset previewOffset])
      (⟨stack.length + 1, lines.length, offset, previewOffset⟩ :: stack) :=
  Stacked.waiting (o := ⟨_, _, offset, previewOffset⟩) h balanced_nil rfl rfl

theorem pop {top : OpenRegion} (h : Stacked lines (top :: stack)) (hr : role.step? = some .D) :
    Stacked (lines ++ [role]) stack := by
  cases h with
  | waiting hq hb _ _ =>
    rw [List.append_assoc]
    exact hq.append_balanced (hb.nest rfl hr)

theorem stray (h : Stacked lines []) (hr : role.step? ≠ some .U) : Stacked (lines ++ [role]) [] := by
  cases h with
  | clear hno => exact .clear fun i hw => hno i (hw.of_concat hr)

theorem waits_iff (h : Stacked lines stack) :
    Waits lines lines.length i ↔ i ∈ stack.map OpenRegion.startLine := by
  induction h with
  | clear hno => simp [hno i]
  | @waiting lines between outer o _ hb hstart _ ih =>
    rw [← List.singleton_append, ← List.append_assoc, waits_append_balanced hb, waits_concat_up rfl, ih,
      List.map_cons, List.mem_cons, hstart]
    exact or_comm

theorem nodup (h : Stacked lines stack) : (stack.map OpenRegion.startLine).Nodup := by
  induction h with
  | clear _ => exact .nil
  | @waiting lines between outer o hq _ hstart _ ih =>
    rw [List.map_cons, List.nodup_cons, hstart]
    refine ⟨fun hm => ?_, ih⟩
    exact Nat.lt_irrefl _ (hq.waits_iff.2 hm).1

theorem depth_eq (h : Stacked lines stack) : depth lines lines.length = stack.length := by
  rw [depth_eq_length h.nodup fun i => h.waits_iff, List.length_map]

/-- Only the innermost open region can end on the next line. -/
theorem balanced_since_iff {offset previewOffset : Nat} (h : Stacked lines stack) :
    (∃ hint, lines[i]? = some (.opens hint offset previewOffset)) ∧ Balanced (lines.drop (i + 1)) ↔
      ∃ top outer, stack = top :: outer ∧ top.startLine = i ∧ top.startOffset = offset ∧
        top.previewOffset = previewOffset := by
  constructor
  · rintro ⟨⟨hint, hi⟩, hb⟩
    obtain ⟨a, b, hlines, rfl⟩ := exists_split hi
    have hdrop : lines.drop (a.length + 1) = b := by
      rw [hlines, ← List.singleton_append, ← List.append_assoc, List.drop_left' (by simp)]
    rw [hdrop] at hb
    cases h with
    | clear hno => exact absurd (waits_end_iff.2 ⟨a, _, b, hlines, rfl, rfl, hb.stays⟩) (hno a.length)
    | waiting _ hb' hstart _ =>
      rcases split_cases hlines with ⟨z, rfl, rfl⟩ | ⟨rfl, hsame, rfl⟩ | ⟨z, rfl, rfl⟩
      · have hz := hb'.stays z (List.prefix_append _ _)
        have hzero := hb'.height_eq
        rw [height_append, height_cons_up rfl, hb.height_eq] at hzero
        omega
      · cases hsame
        exact ⟨_, _, rfl, hstart, rfl, rfl⟩
      · have hz := hb.stays z (List.prefix_append _ _)
        have hzero := hb.height_eq
        rw [height_append, height_cons_up rfl, hb'.height_eq] at hzero
        omega
  · rintro ⟨top, outer, rfl, rfl, rfl, rfl⟩
    cases h with
    | @waiting front between _ _ _ hb hstart _ =>
      rw [hstart]
      refine ⟨⟨none, by simp⟩, ?_⟩
      rwa [← List.singleton_append, ← List.append_assoc, List.drop_left' (by simp)]

/-- Levels count the regions around. -/
theorem level_eq {state : FoldState} (h : Stacked lines state.stack) : state.level = state.stack.length := by
  unfold FoldState.level
  cases hs : state.stack with
  | nil => rfl
  | cons top outer =>
    rw [hs] at h
    cases h with
    | waiting _ _ _ hlevel => simpa using hlevel

theorem top_level {top : OpenRegion} (h : Stacked lines (top :: stack)) :
    top.level = 1 + depth lines top.startLine := by
  cases h with
  | waiting hq _ hstart hlevel => rw [hlevel, hstart, depth_append (Nat.le_refl _), hq.depth_eq, Nat.add_comm]

/-- A closing line ends the innermost open region and no other. -/
theorem isBlock_concat_down {r : Region} (h : Stacked lines stack) (hr : role.step? = some .D) :
    r.IsBlock (lines ++ [role]) ↔
      r.IsBlock lines ∨ ∃ top outer, stack = top :: outer ∧ r = top.endAt lines.length := by
  rw [Region.isBlock_concat]
  apply or_congr_right
  constructor
  · rintro ⟨hend, _, hopens, hb, hlevel⟩
    obtain ⟨top, outer, rfl, hstart, hoffset, hpreview⟩ := h.balanced_since_iff.1 ⟨hopens, hb⟩
    refine ⟨top, outer, rfl, ?_⟩
    rw [← hstart, ← h.top_level] at hlevel
    cases r
    simp_all [OpenRegion.endAt]
  · rintro ⟨top, outer, rfl, rfl⟩
    obtain ⟨hopens, hb⟩ := h.balanced_since_iff.2 ⟨top, outer, rfl, rfl, rfl, rfl⟩
    exact ⟨rfl, hr, hopens, hb, h.top_level⟩

end Stacked

/-- The run of remarks at the end of the lines read, with `depth` regions around it. -/
structure Trails (lines : List LineRole) (depth : Nat) (run : RemarkRun) : Prop where
  end_eq : run.endLine + 1 = lines.length
  start_le : run.startLine ≤ run.endLine
  remarks : ∀ n, run.startLine ≤ n → n ≤ run.endLine → RemarkAt lines n
  first : ∀ n, n + 1 = run.startLine → ¬RemarkAt lines n
  starts : lines[run.startLine]? = some (.remark run.offset)
  depth_eq : LineRole.depth lines run.startLine = depth

namespace Trails

variable {lines : List LineRole} {depth : Nat} {run : RemarkRun}

theorem extend (h : Trails lines depth run) (offset : Nat) :
    Trails (lines ++ [.remark offset]) depth { run with endLine := lines.length } := by
  obtain ⟨hend, hle, hremarks, hfirst, hstarts, hdepth⟩ := h
  constructor
  · simp
  · show run.startLine ≤ lines.length
    omega
  · intro n hn hlast
    rcases Nat.lt_or_eq_of_le hlast with hin | rfl
    · have hin' : n < lines.length := hin
      exact (Region.remarkAt_append hin').2 (hremarks n hn (by omega))
    · exact ⟨offset, by simp⟩
  · intro n hn hr
    have hn' : n + 1 = run.startLine := hn
    exact hfirst n hn ((Region.remarkAt_append (by omega)).1 hr)
  · show (lines ++ [.remark offset])[run.startLine]? = _
    rwa [List.getElem?_append_left (by omega)]
  · show LineRole.depth (lines ++ [.remark offset]) run.startLine = _
    rwa [depth_append (by omega)]

theorem start (h : ∀ n, n + 1 = lines.length → ¬RemarkAt lines n) (offset : Nat) :
    Trails (lines ++ [.remark offset]) (LineRole.depth lines lines.length)
      ⟨lines.length, lines.length, offset⟩ := by
  constructor
  · simp
  · exact Nat.le_refl _
  · intro n hn hlast
    obtain rfl : n = lines.length := Nat.le_antisymm hlast hn
    exact ⟨offset, by simp⟩
  · intro n hn hr
    have hn' : n + 1 = lines.length := hn
    exact h n hn' ((Region.remarkAt_append (by omega)).1 hr)
  · simp
  · exact depth_append (Nat.le_refl _)

end Trails

/-- The state after some lines, with the regions that ended there. -/
structure Reads (lines : List LineRole) (state : FoldState) (done : List Region) : Prop where
  stacked : Stacked lines state.stack
  trails : ∀ run, state.run = some run → Trails lines state.stack.length run
  quiet : state.run = none → ∀ n, n + 1 = lines.length → ¬RemarkAt lines n
  mem_done : ∀ r, r ∈ done ↔ r.IsBlock lines ∨ r.IsRemarkRun lines ∧ r.endLine + 1 < lines.length

theorem reads_start : Reads [] {} [] where
  stacked := .clear fun i hw => Nat.not_lt_zero i hw.1
  trails := by simp
  quiet _ n hn := by simp at hn
  mem_done r := by
    have hblock : ¬r.IsBlock [] := fun hr => Nat.not_lt_zero _ hr.paired.lt_length
    simp [hblock]

namespace Reads

variable {lines : List LineRole} {state : FoldState} {done : List Region} {role : LineRole}

/-- The run at the end gives the region that ends there. -/
theorem mem_runRegions (h : Reads lines state done) (r : Region) :
    r ∈ state.runRegions ↔ r.IsRemarkRun lines ∧ r.endLine + 1 = lines.length := by
  unfold runRegions
  cases hrun : state.run with
  | none =>
    simp only [List.not_mem_nil, false_iff]
    rintro ⟨hr, hend⟩
    exact h.quiet hrun r.endLine hend (hr.remarks _ (Nat.le_of_lt hr.start_lt) (Nat.le_refl _))
  | some run =>
    obtain ⟨hend, hle, hremarks, hfirst, hstarts, hdepth⟩ := h.trails run hrun
    have hlevel : state.level + 1 = 1 + depth lines run.startLine := by
      rw [h.stacked.level_eq, hdepth, Nat.add_comm]
    constructor
    · intro hr
      dsimp only at hr
      split_ifs at hr with hlt
      · obtain rfl := List.mem_singleton.1 hr
        refine ⟨⟨hlt, hremarks, hfirst, ?_, hstarts, rfl, hlevel⟩, hend⟩
        rintro ⟨offset, ho⟩
        rw [hend, List.getElem?_eq_none (Nat.le_refl _)] at ho
        cases ho
      · cases hr
    · rintro ⟨⟨hlt, hremarks', hfirst', _, hstarts', hpreview, hlevel'⟩, hend'⟩
      -- two runs with the same end, both as long as can be
      have hsame : r.startLine = run.startLine := by
        by_contra hne
        rcases Nat.lt_or_gt_of_ne hne with hbefore | hafter
        · exact hfirst (run.startLine - 1) (by omega) (hremarks' _ (by omega) (by omega))
        · exact hfirst' (r.startLine - 1) (by omega) (hremarks _ (by omega) (by omega))
      have hends : r.endLine = run.endLine := by omega
      rw [hsame, hstarts] at hstarts'
      rw [hsame, ← hlevel] at hlevel'
      have hoffset : run.offset = r.startOffset := by simpa using hstarts'
      have hlong : run.startLine < run.endLine := by omega
      simp only [hlong, if_true, List.mem_singleton]
      cases r
      simp_all

/-- A line that is no remark ends the run; `ended` are the blocks that end on it. -/
theorem next {stack : List OpenRegion} (h : Reads lines state done) (ended : List Region)
    (hs : Stacked (lines ++ [role]) stack) (hr : ∀ offset, role ≠ .remark offset)
    (hb : ∀ r : Region, r.IsBlock (lines ++ [role]) ↔ r.IsBlock lines ∨ r ∈ ended) :
    Reads (lines ++ [role]) { stack := stack } (done ++ (state.runRegions ++ ended)) where
  stacked := hs
  trails run hrun := by cases hrun
  quiet _ n hn := by
    rintro ⟨offset, ho⟩
    have hlast : n = lines.length := by simpa using hn
    exact hr offset (by simpa [hlast] using ho)
  mem_done r := by
    have hruns : r.IsRemarkRun (lines ++ [role]) ∧ r.endLine + 1 < (lines ++ [role]).length ↔
        r.IsRemarkRun lines := by
      constructor
      · rintro ⟨hrun, hlt⟩
        have hin : r.endLine < lines.length := by simpa using hlt
        exact ((Region.isRemarkRun_concat hin).1 hrun).1
      · intro hrun
        exact ⟨(Region.isRemarkRun_concat hrun.end_lt).2 ⟨hrun, fun _ => hr⟩, by simpa using hrun.end_lt⟩
    have hend : r.IsRemarkRun lines → _ := Region.IsRemarkRun.end_cases
    rw [List.mem_append, List.mem_append, h.mem_done, h.mem_runRegions, hb, hruns]
    tauto

theorem remark (h : Reads lines state done) (offset : Nat) :
    Reads (lines ++ [.remark offset]) (state.remark lines.length offset) done := by
  have hstack : (state.remark lines.length offset).stack = state.stack := by
    unfold FoldState.remark
    split <;> rfl
  refine ⟨hstack ▸ h.stacked.append_balanced (balanced_singleton rfl), ?_, ?_, ?_⟩
  · rw [hstack]
    intro run hrun
    cases hold : state.run with
    | some old =>
      simp only [FoldState.remark, hold, Option.some.injEq] at hrun
      exact hrun ▸ (h.trails old hold).extend offset
    | none =>
      simp only [FoldState.remark, hold, Option.some.injEq] at hrun
      rw [← h.stacked.depth_eq]
      exact hrun ▸ .start (h.quiet hold) offset
  · intro hrun
    cases hold : state.run <;> simp [FoldState.remark, hold] at hrun
  · intro r
    have hblock : r.IsBlock (lines ++ [.remark offset]) ↔ r.IsBlock lines := by
      simp [Region.isBlock_concat, step?]
    have hruns : r.IsRemarkRun (lines ++ [.remark offset]) ∧
        r.endLine + 1 < (lines ++ [LineRole.remark offset]).length ↔
        r.IsRemarkRun lines ∧ r.endLine + 1 < lines.length := by
      constructor
      · rintro ⟨hrun, hlt⟩
        have hin : r.endLine < lines.length := by simpa using hlt
        obtain ⟨hrun', hlast⟩ := (Region.isRemarkRun_concat hin).1 hrun
        refine ⟨hrun', Nat.lt_of_le_of_ne hin fun hend => ?_⟩
        exact hlast hend offset rfl
      · rintro ⟨hrun, hlt⟩
        refine ⟨(Region.isRemarkRun_concat hrun.end_lt).2 ⟨hrun, fun hend => ?_⟩, by simp; omega⟩
        omega
    rw [h.mem_done, hblock, hruns]

theorem step (h : Reads lines state done) (hh : role.hint? = none) :
    Reads (lines ++ [role]) (state.step lines.length role).1 (done ++ (state.step lines.length role).2) := by
  cases role with
  | remark offset => simpa [FoldState.step] using h.remark offset
  | plain =>
    have hstacked : Stacked (lines ++ [.plain]) state.stack :=
      h.stacked.append_balanced (balanced_singleton rfl)
    have hnext := h.next [] hstacked (by simp) (by simp [Region.isBlock_concat, step?])
    rwa [List.append_nil] at hnext
  | opens hint offset previewOffset =>
    obtain rfl : hint = none := hh
    have hstacked := h.stacked.push offset previewOffset
    rw [← h.stacked.level_eq] at hstacked
    simp only [FoldState.step, openRegion_none]
    exact h.next [] hstacked (by simp) (by simp [Region.isBlock_concat, step?])
  | closes hint =>
    obtain rfl : hint = none := hh
    have hblocks (r : Region) : r.IsBlock (lines ++ [.closes none]) ↔ _ := h.stacked.isBlock_concat_down rfl
    have hstacked := h.stacked
    simp only [FoldState.step, close, endRun]
    cases hs : state.stack with
    | nil =>
      rw [hs] at hstacked hblocks
      apply h.next [] (hstacked.stray (by simp [step?])) (by simp)
      simp [hblocks]
    | cons top rest =>
      rw [hs] at hstacked hblocks
      simp only [Option.getD_none, if_true]
      apply h.next [top.endAt lines.length] (hstacked.pop rfl) (by simp)
      simp [hblocks]

theorem regionsFrom {roles : List LineRole} (h : Reads lines state done)
    (hh : ∀ role ∈ roles, role.hint? = none) (r : Region) :
    r ∈ done ++ state.regionsFrom lines.length roles ↔
      r.IsBlock (lines ++ roles) ∨ r.IsRemarkRun (lines ++ roles) := by
  induction roles generalizing lines state done with
  | nil =>
    have hend : r.IsRemarkRun lines → _ := Region.IsRemarkRun.end_cases
    rw [FoldState.regionsFrom, List.append_nil, List.mem_append, h.mem_done, h.mem_runRegions]
    tauto
  | cons role roles ih =>
    have hstep := h.step (hh role List.mem_cons_self)
    have hnext := ih hstep fun later hl => hh later (List.mem_cons_of_mem _ hl)
    simp only [List.append_assoc, List.singleton_append, List.length_append, List.length_singleton] at hnext
    exact hnext

end Reads
end FoldState

namespace Conventions

theorem remarkPos_of_isRemarkOnly {rules : Conventions} {line : Text} (h : rules.isRemarkOnly line = true) :
    (rules.remarkPos line).isSome = true := by
  rw [Option.isSome_iff_ne_none, ne_eq, remarkPos_eq_none_iff]
  intro hnone
  unfold isRemarkOnly at h
  cases hd : line.dropWhile Text.isBlank with
  | nil => simp [hd] at h
  | cons c rest =>
    have hc : c ∈ line.dropWhile Text.isBlank := by simp [hd]
    have hplain := hnone c ((List.dropWhile_suffix _).subset hc)
    simp [hd, hplain] at h

end Conventions

namespace FoldRules

variable {rules : FoldRules} {t : Tokenizer} {line : Text}

/-- Only tags ask for levels. -/
theorem role_hint_none (h : (rules.byTags? line).bind LineRole.hint? = none) :
    (rules.role t line).hint? = none := by
  unfold role
  cases hb : rules.byTags? line with
  | some role => simpa [hb] using h
  | none =>
    dsimp only
    split_ifs
    · rfl
    · exact byDirectives_hint rules line _

theorem byDirectives_ne_remark (rules : FoldRules) (line : Text) (tokens : List Token) (offset : Nat) :
    rules.byDirectives line tokens ≠ .remark offset := by
  induction tokens with
  | nil => simp [byDirectives]
  | cons token tokens ih =>
    unfold byDirectives
    dsimp only
    split_ifs <;> simp [ih]

theorem byTags?_ne_remark (rules : FoldRules) (line : Text) (offset : Nat) :
    rules.byTags? line ≠ some (.remark offset) := by
  intro h
  obtain ⟨isBegin, tag, htag⟩ := byTags?_cases h
  unfold tagRole? at htag
  split_ifs at htag <;> simp at htag

/-- A remark line is known by where its first marker stands. -/
theorem remarkPos_of_role {offset : Nat} (h : rules.role t line = .remark offset) :
    t.rules.remarkPos line = some offset := by
  unfold role at h
  cases hb : rules.byTags? line with
  | some role =>
    rw [hb] at h
    exact absurd (h ▸ hb) (byTags?_ne_remark rules line offset)
  | none =>
    simp only [hb] at h
    split_ifs at h with honly
    · obtain ⟨marker, hm⟩ := Option.isSome_iff_exists.1 (Conventions.remarkPos_of_isRemarkOnly honly)
      simpa [hm] using h
    · exact absurd h (byDirectives_ne_remark rules line _ offset)

end FoldRules

namespace Region

/-- When no tag asks for a level, the regions of a source are exactly its matched pairs of
lines and its runs of remarks, each once. -/
theorem ofSource_brackets (rules : FoldRules) (t : Tokenizer) (source : Source)
    (h : ∀ line ∈ source.lines, (rules.byTags? line).bind LineRole.hint? = none) :
    let roles := source.lines.map (rules.role t)
    (ofSource rules t source).Nodup ∧
      (∀ r, r ∈ ofSource rules t source ↔ r.IsBlock roles ∨ r.IsRemarkRun roles) ∧
      ∀ n offset, roles[n]? = some (.remark offset) →
        t.rules.remarkPos (source.line n) = some offset := by
  intro roles
  refine ⟨?_, ?_, ?_⟩
  · apply (ofSource_laid rules t source).apart.imp
    rintro a b hab rfl
    exact hab.start_ne rfl
  · intro r
    have hhints : ∀ role ∈ roles, role.hint? = none := by
      intro role hr
      obtain ⟨line, hl, rfl⟩ := List.mem_map.1 hr
      exact FoldRules.role_hint_none (h line hl)
    have hread := FoldState.reads_start.regionsFrom hhints r
    rw [List.nil_append, List.nil_append] at hread
    rw [← hread]
    exact (sortStable_perm before _).mem_iff
  · intro n offset hn
    rw [List.getElem?_map] at hn
    obtain ⟨line, hl, hrole⟩ := Option.map_eq_some_iff.1 hn
    have hline : source.line n = line := by simp [Source.line, hl]
    rw [hline]
    exact FoldRules.remarkPos_of_role hrole

/-- The first line waits to the end; what follows it is one level deeper for that. -/
def unterminated : Source :=
  ⟨["#region a".toList, "#region b".toList, "; one".toList, "; two".toList, "#endregion".toList]⟩

theorem ofSource_unterminated :
    let t : Tokenizer := ⟨.empty, {}⟩
    let roles := unterminated.lines.map (FoldRules.role {} t)
    (∀ line ∈ unterminated.lines, (FoldRules.byTags? {} line).bind LineRole.hint? = none) ∧
      ofSource {} t unterminated = [⟨2, 1, 0, 7, 4⟩, ⟨3, 2, 0, 0, 3⟩] ∧
      ∀ r, r ∈ ofSource {} t unterminated ↔ r.IsBlock roles ∨ r.IsRemarkRun roles := by
  intro t roles
  have hhints : ∀ line ∈ unterminated.lines, (FoldRules.byTags? {} line).bind LineRole.hint? = none := by
    decide
  exact ⟨hhints, by decide, (ofSource_brackets {} t unterminated hhints).2.1⟩

end Region
end AsmOutline
