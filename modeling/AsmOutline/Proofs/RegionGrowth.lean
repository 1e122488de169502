import AsmOutline.Proofs.RegionNesting

/-! # Regions of a source that grows

A region that ends on a line is known once that line is read, and a run of remarks once the
line after it is read. So lines added at the end of a source change no region that ends before
its last line. Two runs over the same lines give the same state, and all that ends later ends
on the last line of these or below.
-/
namespace AsmOutline
namespace FoldState

variable {line : Nat} {state : FoldState} {role : LineRole}

/-- The state after some lines, and the regions that ended on them. -/
def read (state : FoldState) (line : Nat) : List LineRole → FoldState × List Region
  | [] => (state, [])
  | role :: rest =>
    let next := state.step line role
    let last := next.1.read (line + 1) rest
    (last.1, next.2 ++ last.2)

theorem regionsFrom_append (state : FoldState) (line : Nat) (roles more : List LineRole) :
    state.regionsFrom line (roles ++ more) =
      (state.read line roles).2 ++ (state.read line roles).1.regionsFrom (line + roles.length) more := by
  induction roles generalizing state line with
  | nil => rfl
  | cons role roles ih =>
    simp only [List.cons_append, regionsFrom, read, ih, List.length_cons, List.append_assoc]
    rw [Nat.add_right_comm line, ← Nat.add_assoc]

/-- The remarks just read go up to the line before `line`. -/
def Reaches (line : Nat) (state : FoldState) : Prop :=
  ∀ run, state.run = some run → run.endLine + 1 = line

theorem Reaches.endLine_of_run (h : Reaches line state) : ∀ r ∈ state.runRegions, r.endLine + 1 = line := by
  intro r hr
  unfold runRegions at hr
  cases hrun : state.run with
  | none => simp [hrun] at hr
  | some run =>
    simp only [hrun] at hr
    split_ifs at hr
    · rw [List.mem_singleton.1 hr]
      exact h run hrun
    · cases hr

theorem reaches_of_quiet (h : state.run = none) (line : Nat) : Reaches line state := by
  intro run hrun
  rw [h] at hrun
  cases hrun

theorem reaches_remark (state : FoldState) (line offset : Nat) :
    Reaches (line + 1) (state.remark line offset) := by
  intro run hrun
  unfold remark at hrun
  cases hold : state.run <;> simp only [hold, Option.some.injEq] at hrun <;> rw [← hrun]

/-- To open a region leaves the remarks alone, and what it ends, it ends on its own line. -/
theorem openRegion_frame (state : FoldState) (line : Nat) (hint : Option Nat) (offset previewOffset : Nat) :
    (state.openRegion line hint offset previewOffset).1.run = state.run ∧
      ∀ r ∈ (state.openRegion line hint offset previewOffset).2, r.endLine = line := by
  unfold openRegion
  cases state.stack with
  | nil => simp
  | cons top rest =>
    dsimp only
    split_ifs <;> simp [OpenRegion.endAt]

theorem close_frame (state : FoldState) (line : Nat) (hint : Option Nat) :
    (state.close line hint).1.run = state.run ∧ ∀ r ∈ (state.close line hint).2, r.endLine = line := by
  unfold close
  cases state.stack with
  | nil => simp
  | cons top rest =>
    dsimp only
    split_ifs <;> simp [OpenRegion.endAt]

theorem reaches_step (state : FoldState) (line : Nat) (role : LineRole) :
    Reaches (line + 1) (state.step line role).1 := by
  cases role with
  | remark offset => exact reaches_remark state line offset
  | plain => exact reaches_of_quiet rfl _
  | opens hint offset previewOffset => exact reaches_of_quiet (openRegion_frame state.endRun _ _ _ _).1 _
  | closes hint => exact reaches_of_quiet (close_frame state.endRun _ _).1 _

/-- What ends at a line ends on it, or on the line before if it is a run of remarks. -/
theorem Reaches.endLine_of_step (h : Reaches line state) :
    ∀ r ∈ (state.step line role).2, line ≤ r.endLine + 1 := by
  intro r hr
  have hrun : r ∈ state.runRegions → line ≤ r.endLine + 1 := fun hm => Nat.le_of_eq (h.endLine_of_run r hm).symm
  cases role with
  | remark offset => cases hr
  | plain => exact hrun hr
  | opens hint offset previewOffset =>
    rcases List.mem_append.1 hr with hr | hr
    · exact hrun hr
    · rw [(openRegion_frame state.endRun _ _ _ _).2 r hr]
      exact Nat.le_succ line
  | closes hint =>
    rcases List.mem_append.1 hr with hr | hr
    · exact hrun hr
    · rw [(close_frame state.endRun _ _).2 r hr]
      exact Nat.le_succ line

theorem Reaches.read (h : Reaches line state) (roles : List LineRole) :
    Reaches (line + roles.length) (state.read line roles).1 := by
  induction roles generalizing line state with
  | nil => exact h
  | cons role roles ih =>
    rw [List.length_cons, ← Nat.add_assoc, Nat.add_right_comm]
    exact ih (reaches_step state line role)

theorem Reaches.endLine_of_regionsFrom (h : Reaches line state) (roles : List LineRole) :
    ∀ r ∈ state.regionsFrom line roles, line ≤ r.endLine + 1 := by
  induction roles generalizing line state with
  | nil => exact fun r hr => Nat.le_of_eq (h.endLine_of_run r hr).symm
  | cons role roles ih =>
    intro r hr
    rcases List.mem_append.1 hr with hr | hr
    · exact h.endLine_of_step r hr
    · exact Nat.le_of_succ_le (ih (reaches_step state line role) r hr)

end FoldState

namespace Region

/-- The regions that end before the last of some lines are found while these lines are read. -/
theorem filter_ofRoles_append (roles more : List LineRole) :
    (ofRoles (roles ++ more)).filter (·.endLine < roles.length - 1) =
      sortStable before ((FoldState.read {} 0 roles).2.filter (·.endLine < roles.length - 1)) := by
  have hstart : FoldState.Reaches 0 {} := FoldState.reaches_of_quiet rfl 0
  have hreaches := hstart.read roles
  have hlate : ((FoldState.read {} 0 roles).1.regionsFrom (0 + roles.length) more).filter
      (·.endLine < roles.length - 1) = [] := by
    apply List.filter_eq_nil_iff.2
    intro r hr
    have hend := hreaches.endLine_of_regionsFrom more r hr
    simp only [decide_eq_true_eq]
    omega
  rw [ofRoles, filter_sortStable before_total before_trans, FoldState.regionsFrom_append, List.filter_append,
    hlate, List.append_nil]

/-- Lines added at the end of a source leave the regions that end before its last line as
they are. -/
theorem ended_ofSource_append (rules : FoldRules) (t : Tokenizer) (source : Source) (more : List Text) :
    (ofSource rules t ⟨source.lines ++ more⟩).filter (·.endLine < source.lineCount - 1) =
      (ofSource rules t source).filter (·.endLine < source.lineCount - 1) := by
  have hcount : source.lineCount = (source.lines.map (rules.role t)).length := (List.length_map _).symm
  have hgrown := filter_ofRoles_append (source.lines.map (rules.role t)) (more.map (rules.role t))
  have halone := filter_ofRoles_append (source.lines.map (rules.role t)) []
  rw [List.append_nil] at halone
  rw [hcount, ofSource, ofSource, List.map_append, hgrown, halone]

/-- A run of remarks that reaches the last line may still grow. -/
example :
    ofSource {} ⟨.empty, {}⟩ ⟨["; a".toList, "; b".toList]⟩ = [⟨1, 0, 0, 0, 1⟩] ∧
      ofSource {} ⟨.empty, {}⟩ ⟨["; a".toList, "; b".toList, "; c".toList]⟩ = [⟨1, 0, 0, 0, 2⟩] := by
  decide

end Region
end AsmOutline
