import AsmOutline.Fold.Descriptor
import AsmOutline.Proofs.RoleOffsets

/-! # Regions and their descriptors fit the text

A region keeps the offsets that the role of its first line gave when it was opened. The state says
so of the regions still open and of the remarks just read, and a line adds nothing to it but its own
offsets. So each region starts with a piece of its first line: a directive, a begin tag with its
digits, or the place of a remark.
-/
namespace AsmOutline
open Text

namespace LineRole

/-- What opens a region on the n-th of the lines. -/
def headAt? (roles : List LineRole) (n : Nat) : Option Span :=
  roles[n]?.bind head?

theorem headAt?_eq {roles : List LineRole} {n : Nat} {role : LineRole} (h : roles[n]? = some role) :
    headAt? roles n = role.head? := by
  rw [headAt?, h, Option.bind_some]

end LineRole

open LineRole

/-- The region starts with what opens it on its first line. -/
def Region.Rooted (roles : List LineRole) (r : Region) : Prop :=
  headAt? roles r.startLine = some ⟨r.startOffset, r.previewOffset⟩

namespace FoldState

variable {roles : List LineRole} {state : FoldState} {line offset previewOffset : Nat}
  {role : LineRole}

structure Rooted (roles : List LineRole) (state : FoldState) : Prop where
  stack : ∀ opened ∈ state.stack,
    headAt? roles opened.startLine = some ⟨opened.startOffset, opened.previewOffset⟩
  run : ∀ run ∈ state.run, headAt? roles run.startLine = some ⟨run.offset, run.offset⟩

namespace Rooted

theorem start (roles : List LineRole) : Rooted roles {} := by
  constructor
  · intro opened hmem
    cases hmem
  · intro run hrun
    cases hrun

theorem endRun (h : state.Rooted roles) : state.endRun.Rooted roles := by
  refine ⟨h.stack, ?_⟩
  intro run hrun
  cases hrun

theorem runRegions (h : state.Rooted roles) : ∀ r ∈ state.runRegions, r.Rooted roles := by
  unfold FoldState.runRegions
  cases hrun : state.run with
  | none => simp
  | some run =>
    dsimp only
    split_ifs
    · rw [List.forall_mem_singleton]
      exact h.run run hrun
    · simp

theorem remark (h : state.Rooted roles) (hr : headAt? roles line = some ⟨offset, offset⟩) :
    (state.remark line offset).Rooted roles := by
  unfold FoldState.remark
  cases hrun : state.run with
  | none =>
    refine ⟨h.stack, ?_⟩
    rintro run ⟨⟩
    exact hr
  | some run =>
    refine ⟨h.stack, ?_⟩
    rintro longer ⟨⟩
    exact h.run run hrun

theorem openRegion (h : state.Rooted roles) (hint : Option Nat)
    (hr : headAt? roles line = some ⟨offset, previewOffset⟩) :
    (state.openRegion line hint offset previewOffset).1.Rooted roles ∧
      ∀ r ∈ (state.openRegion line hint offset previewOffset).2, r.Rooted roles := by
  have hstack := h.stack
  unfold FoldState.openRegion
  cases hs : state.stack with
  | nil => exact ⟨⟨List.forall_mem_singleton.2 hr, h.run⟩, by simp⟩
  | cons top rest =>
    rw [hs, List.forall_mem_cons] at hstack
    dsimp only
    split_ifs
    · -- the region above is of the same level and ends here
      refine ⟨⟨List.forall_mem_cons.2 ⟨hr, hstack.2⟩, h.run⟩, ?_⟩
      rw [List.forall_mem_singleton]
      exact hstack.1
    · exact ⟨⟨List.forall_mem_cons.2 ⟨hr, List.forall_mem_cons.2 hstack⟩, h.run⟩, by simp⟩

theorem close (h : state.Rooted roles) (line : Nat) (hint : Option Nat) :
    (state.close line hint).1.Rooted roles ∧ ∀ r ∈ (state.close line hint).2, r.Rooted roles := by
  have hstack := h.stack
  unfold FoldState.close
  cases hs : state.stack with
  | nil => exact ⟨h, by simp⟩
  | cons top rest =>
    rw [hs, List.forall_mem_cons] at hstack
    dsimp only
    split_ifs
    · refine ⟨⟨hstack.2, h.run⟩, ?_⟩
      rw [List.forall_mem_singleton]
      exact hstack.1
    · exact ⟨h, by simp⟩

theorem step (h : state.Rooted roles) (hr : roles[line]? = some role) :
    (state.step line role).1.Rooted roles ∧ ∀ r ∈ (state.step line role).2, r.Rooted roles := by
  have hhead := headAt?_eq hr
  cases role with
  | remark offset => exact ⟨h.remark hhead, by simp [FoldState.step]⟩
  | plain => exact ⟨h.endRun, h.runRegions⟩
  | opens hint offset previewOffset =>
    have hopen := h.endRun.openRegion hint hhead
    exact ⟨hopen.1, List.forall_mem_append.2 ⟨h.runRegions, hopen.2⟩⟩
  | closes hint =>
    have hclose := h.endRun.close line hint
    exact ⟨hclose.1, List.forall_mem_append.2 ⟨h.runRegions, hclose.2⟩⟩

/-- By induction on the lines that are left; those read before stand in front of them. -/
theorem regionsFrom {read rest : List LineRole} (h : state.Rooted (read ++ rest)) :
    ∀ r ∈ state.regionsFrom read.length rest, r.Rooted (read ++ rest) := by
  induction rest generalizing state read with
  | nil => exact h.runRegions
  | cons role rest ih =>
    have hrole : (read ++ role :: rest)[read.length]? = some role := by simp
    have hstep := h.step hrole
    refine List.forall_mem_append.2 ⟨hstep.2, ?_⟩
    have hmoved : read ++ role :: rest = (read ++ [role]) ++ rest := by simp
    rw [hmoved] at hstep ⊢
    have hlater := ih hstep.1
    rwa [List.length_append] at hlater

end Rooted
end FoldState

namespace Region

variable {rules : FoldRules} {t : Tokenizer} {source : Source} {r : Region}

/-- The regions of a source whose roles are read by offsets. -/
def ofSourceAt? (rules : FoldRules) (t : Tokenizer) (source : Source) : Option (List Region) :=
  (source.lines.mapM (rules.roleAt? t)).map ofRoles

theorem ofSourceAt?_eq (rules : FoldRules) (t : Tokenizer) (source : Source) :
    ofSourceAt? rules t source = some (ofSource rules t source) := by
  have hrole : rules.roleAt? t = fun line => pure (rules.role t line) := by
    funext line
    exact rules.roleAt?_eq t line
  rw [ofSourceAt?, hrole, List.mapM_pure]
  rfl

theorem head?_of_mem (h : r ∈ ofSource rules t source) :
    (rules.role t (source.line r.startLine)).head? = some ⟨r.startOffset, r.previewOffset⟩ := by
  have hmem := (sortStable_perm before _).mem_iff.1 h
  have hroot : r.Rooted ([] ++ source.lines.map (rules.role t)) :=
    FoldState.Rooted.regionsFrom (.start _) r hmem
  rw [Rooted, List.nil_append, headAt?, List.getElem?_map] at hroot
  rw [Source.line, List.getD_eq_getElem?_getD]
  cases hline : source.lines[r.startLine]? with
  | none =>
    rw [hline] at hroot
    cases hroot
  | some line =>
    rw [hline] at hroot
    exact hroot

/-- The offsets of a region lie in its first line, and a tag that stands in this line has opened
the region. -/
structure StartsIn (rules : FoldRules) (line : Text) (r : Region) : Prop where
  start_le : r.startOffset ≤ r.previewOffset
  preview_le : r.previewOffset ≤ width line
  start_boundary : IsBoundary line r.startOffset
  preview_boundary : IsBoundary line r.previewOffset
  tag : ¬rules.Untagged line → Span.IsTag ⟨r.startOffset, r.previewOffset⟩ rules.beginTag line

theorem startsIn_of_mem (h : r ∈ ofSource rules t source) :
    r.StartsIn rules (source.line r.startLine) := by
  have hhead := head?_of_mem h
  have hcuts := FoldRules.cuts_of_role hhead
  constructor
  case start_le => exact hcuts.le.1
  case preview_le => exact hcuts.le.2
  case start_boundary => exact hcuts.boundaries.1
  case preview_boundary => exact hcuts.boundaries.2
  case tag => exact FoldRules.isTag_of_role hhead

end Region

theorem RegionDescriptor.previewLines_eq {source : Source} {r : Region} (h : r.endLine < source.lineCount) :
    previewLines r source =
      (List.range' (r.startLine + 1) (min r.endLine (r.startLine + 40) - r.startLine)).map source.line := by
  unfold Source.lineCount at h
  unfold previewLines maxPreviewLines
  apply List.ext_getElem
  · simp only [List.length_take, List.length_drop, List.length_map, List.length_range']
    omega
  · intro i hi _
    simp only [List.length_take, List.length_drop] at hi
    simp only [List.getElem_take, List.getElem_drop, List.getElem_map, List.getElem_range'_1, Source.line]
    rw [List.getD_eq_getElem?_getD, List.getElem?_eq_getElem (by omega), Option.getD_some]

/-- Regions and previews fit the text, whatever the lines and the tags are: no slice fails on the
way to the regions, each region starts with a piece of its first line, and the descriptors go
through the regions one by one and show up to forty lines of each. -/
theorem RegionSet.run_fits_text (rules : FoldRules) (t : Tokenizer) (source : Source) :
    Region.ofSourceAt? rules t source = some (Region.ofSource rules t source) ∧
      (∀ r ∈ Region.ofSource rules t source,
        r.startLine < r.endLine ∧ r.endLine < source.lineCount ∧
          r.StartsIn rules (source.line r.startLine)) ∧
      ∃ set, (job rules t source).run? false = some set ∧
        set.regions = Region.ofSource rules t source ∧
        set.descriptors.map RegionDescriptor.region = set.regions ∧
        ∀ d ∈ set.descriptors, d.preview = ['\n'].intercalate
          ((List.range' (d.region.startLine + 1)
            (min d.region.endLine (d.region.startLine + 40) - d.region.startLine)).map source.line) := by
  have hproper := (Region.ofSource_laid rules t source).proper
  refine ⟨Region.ofSourceAt?_eq rules t source, ?_, ofSource rules t source, rfl, rfl, ?_, ?_⟩
  · intro r hr
    exact ⟨(hproper r hr).start_lt, (hproper r hr).end_lt, Region.startsIn_of_mem hr⟩
  · rw [ofSource, List.map_map]
    exact List.map_id _
  · intro d hd
    obtain ⟨r, hr, rfl⟩ := List.mem_map.1 hd
    dsimp only [RegionDescriptor.ofRegion]
    rw [RegionDescriptor.previewLines_eq (hproper r hr).end_lt]

end AsmOutline
