import AsmOutline.Fold.Rules
import Mathlib.Combinatorics.Enumerative.DyckWord

/-! # Opening and closing lines as brackets

An opening line is a step up and a closing line a step down. Two lines match when the
first opens, the second closes and the steps between them form a Dyck word. An opening
line that nothing matches waits: no line after it comes down below it.
-/
namespace AsmOutline.LineRole
open DyckStep

def step? : LineRole → Option DyckStep
  | opens _ _ _ => some U
  | closes _ => some D
  | _ => none

/-- The opening and closing lines pair off. -/
def Balanced (roles : List LineRole) : Prop :=
  ∃ word : DyckWord, word.toList = roles.filterMap step?

/-- How many more lines open than close. -/
def height (roles : List LineRole) : Int :=
  ((roles.filterMap step?).count U : Int) - ((roles.filterMap step?).count D : Int)

/-- No line comes down below the start. -/
def Stays (roles : List LineRole) : Prop :=
  ∀ front, front <+: roles → 0 ≤ height front

variable {role : LineRole} {roles a b : List LineRole} {s : DyckStep} {i j n : Nat}

@[simp] theorem height_nil : height [] = 0 := rfl

@[simp] theorem height_append (a b : List LineRole) : height (a ++ b) = height a + height b := by
  simp only [height, List.filterMap_append, List.count_append]
  omega

theorem height_cons_up (h : role.step? = some U) (roles : List LineRole) :
    height (role :: roles) = height roles + 1 := by
  simp [height, h]
  omega

theorem height_cons_down (h : role.step? = some D) (roles : List LineRole) :
    height (role :: roles) = height roles - 1 := by
  simp [height, h]
  omega

theorem height_cons_flat (h : role.step? = none) (roles : List LineRole) :
    height (role :: roles) = height roles := by
  simp [height, h]

theorem Stays.of_append (h : Stays (a ++ b)) : Stays a :=
  fun front hf => h front (hf.trans (List.prefix_append a b))

theorem stays_append_iff : Stays (a ++ b) ↔ Stays a ∧ ∀ front, front <+: b → 0 ≤ height a + height front := by
  constructor
  · intro h
    refine ⟨h.of_append, fun front hf => ?_⟩
    simpa using h (a ++ front) ((List.prefix_append_right_inj a).2 hf)
  · rintro ⟨ha, hb⟩ front hf
    rcases List.prefix_or_prefix_of_prefix hf (List.prefix_append a b) with hle | ⟨later, rfl⟩
    · exact ha front hle
    · simpa using hb later ((List.prefix_append_right_inj a).1 hf)

theorem stays_concat_iff : Stays (a ++ [role]) ↔ Stays a ∧ 0 ≤ height (a ++ [role]) := by
  constructor
  · exact fun h => ⟨h.of_append, h _ (List.prefix_refl _)⟩
  · rintro ⟨ha, hlast⟩ front hf
    rcases List.prefix_concat_iff.1 hf with rfl | hf
    · exact hlast
    · exact ha front hf

/-- A front part of the steps is what some front part of the lines gives. -/
theorem take_steps (roles : List LineRole) (n : Nat) :
    ∃ front, front <+: roles ∧ (roles.filterMap step?).take n = front.filterMap step? := by
  induction roles generalizing n with
  | nil => exact ⟨[], List.prefix_refl _, by simp⟩
  | cons role roles ih =>
    cases hs : role.step? with
    | none =>
      obtain ⟨front, hf, ht⟩ := ih n
      exact ⟨role :: front, List.cons_prefix_cons.2 ⟨rfl, hf⟩, by simpa [hs] using ht⟩
    | some s =>
      cases n with
      | zero => exact ⟨[], List.nil_prefix, by simp⟩
      | succ n =>
        obtain ⟨front, hf, ht⟩ := ih n
        exact ⟨role :: front, List.cons_prefix_cons.2 ⟨rfl, hf⟩, by simpa [hs] using ht⟩

theorem balanced_iff : Balanced roles ↔ height roles = 0 ∧ Stays roles := by
  constructor
  · rintro ⟨word, hw⟩
    constructor
    · have hcount := word.count_U_eq_count_D
      rw [hw] at hcount
      simp [height, hcount]
    · rintro front ⟨rest, rfl⟩
      have hcount := word.count_D_le_count_U (front.filterMap step?).length
      rw [hw, List.filterMap_append, List.take_left] at hcount
      simp only [height]
      omega
  · rintro ⟨hzero, hstays⟩
    refine ⟨⟨roles.filterMap step?, ?_, fun n => ?_⟩, rfl⟩
    · simp only [height] at hzero
      omega
    · obtain ⟨front, hf, ht⟩ := take_steps roles n
      have hle := hstays front hf
      simp only [height] at hle
      rw [ht]
      omega

instance (roles : List LineRole) : Decidable (Balanced roles) :=
  decidable_of_iff (height roles = 0 ∧ ∀ front ∈ roles.inits, 0 ≤ height front)
    (by simp only [balanced_iff, Stays, List.mem_inits])

theorem balanced_nil : Balanced [] :=
  ⟨0, rfl⟩

theorem Balanced.append (ha : Balanced a) (hb : Balanced b) : Balanced (a ++ b) := by
  obtain ⟨v, hv⟩ := ha
  obtain ⟨w, hw⟩ := hb
  exact ⟨v + w, by rw [List.filterMap_append, ← hv, ← hw]; rfl⟩

/-- A balanced stretch with an opening line before it and a closing one after it. -/
theorem Balanced.nest {first last : LineRole} (h : Balanced b) (hf : first.step? = some U)
    (hl : last.step? = some D) : Balanced (first :: b ++ [last]) := by
  obtain ⟨word, hw⟩ := h
  exact ⟨word.nest, by simp [hf, hl, ← hw, DyckWord.nest]⟩

theorem balanced_singleton (h : role.step? = none) : Balanced [role] :=
  ⟨0, by simp [h]; rfl⟩

theorem Balanced.height_eq (h : Balanced roles) : height roles = 0 :=
  (balanced_iff.1 h).1

theorem Balanced.stays (h : Balanced roles) : Stays roles :=
  (balanced_iff.1 h).2

/-- The first line that comes down below the start follows a balanced stretch. -/
theorem exists_descent (h : ¬Stays roles) :
    ∃ between last later, roles = between ++ last :: later ∧ last.step? = some D ∧ Balanced between := by
  induction roles using List.reverseRecOn with
  | nil => exact absurd (fun front hf => by simp [List.prefix_nil.1 hf]) h
  | append_singleton front last ih =>
    by_cases hs : Stays front
    · have hlow : height (front ++ [last]) < 0 := by
        by_contra hle
        exact h (stays_concat_iff.2 ⟨hs, Int.not_lt.1 hle⟩)
      have hfront := hs front (List.prefix_refl _)
      rw [height_append] at hlow
      cases hl : last.step? with
      | none => rw [height_cons_flat hl, height_nil] at hlow; omega
      | some s =>
        cases s with
        | U => rw [height_cons_up hl, height_nil] at hlow; omega
        | D =>
          rw [height_cons_down hl, height_nil] at hlow
          exact ⟨front, last, [], rfl, hl, balanced_iff.2 ⟨by omega, hs⟩⟩
    · obtain ⟨between, down, later, rfl, hd, hb⟩ := ih hs
      exact ⟨between, down, later ++ [last], by simp, hd, hb⟩

/-- Line `i` opens, line `j` closes, and the lines strictly between them pair off. -/
def Matches (roles : List LineRole) (i j : Nat) : Prop :=
  i < j ∧ roles[i]?.bind step? = some U ∧ roles[j]?.bind step? = some D ∧
    Balanced ((roles.take j).drop (i + 1))

instance (roles : List LineRole) (i j : Nat) : Decidable (Matches roles i j) :=
  inferInstanceAs (Decidable (_ ∧ _))

/-- Line `i` opens before line `n`, and no line before line `n` matches it. -/
def Waits (roles : List LineRole) (n i : Nat) : Prop :=
  i < n ∧ roles[i]?.bind step? = some U ∧ ∀ j < n, ¬Matches roles i j

instance (roles : List LineRole) (n i : Nat) : Decidable (Waits roles n i) :=
  inferInstanceAs (Decidable (_ ∧ _))

/-- How many lines wait at line `n`. -/
def depth (roles : List LineRole) (n : Nat) : Nat :=
  (List.range n).countP fun i => decide (Waits roles n i)

/-- A line and what stands on its two sides. -/
theorem exists_split (h : roles[i]? = some role) : ∃ a b, roles = a ++ role :: b ∧ a.length = i := by
  obtain ⟨hi, rfl⟩ := List.getElem?_eq_some_iff.1 h
  exact ⟨roles.take i, roles.drop (i + 1), by simp, by simp; omega⟩

theorem exists_step (h : roles[i]?.bind step? = some s) :
    ∃ a role b, roles = a ++ role :: b ∧ a.length = i ∧ role.step? = some s := by
  obtain ⟨role, hr, hs⟩ := Option.bind_eq_some_iff.1 h
  obtain ⟨a, b, hab, ha⟩ := exists_split hr
  exact ⟨a, role, b, hab, ha, hs⟩

theorem take_drop_between (a b : List LineRole) (first last : LineRole) (between : List LineRole) :
    ((a ++ first :: between ++ last :: b).take (a ++ first :: between).length).drop (a.length + 1) =
      between := by
  rw [List.take_left, ← List.singleton_append, ← List.append_assoc, List.drop_left' (by simp)]

theorem matches_iff : Matches roles i j ↔ ∃ a first between last b,
    roles = a ++ first :: between ++ last :: b ∧ a.length = i ∧ (a ++ first :: between).length = j ∧
      first.step? = some U ∧ last.step? = some D ∧ Balanced between := by
  constructor
  · rintro ⟨hlt, hup, hdown, hb⟩
    obtain ⟨front, last, b, rfl, rfl, hl⟩ := exists_step hdown
    rw [List.getElem?_append_left hlt] at hup
    obtain ⟨a, first, between, rfl, rfl, hf⟩ := exists_step hup
    rw [take_drop_between] at hb
    exact ⟨a, first, between, last, b, rfl, rfl, rfl, hf, hl, hb⟩
  · rintro ⟨a, first, between, last, b, rfl, rfl, rfl, hf, hl, hb⟩
    refine ⟨by simp, ?_, ?_, by rwa [take_drop_between]⟩
    · rw [List.getElem?_append_left (by simp)]
      simp [hf]
    · simp [hl]

theorem matches_append (h : j < a.length) : Matches (a ++ b) i j ↔ Matches a i j := by
  simp only [Matches, List.getElem?_append_left h, List.take_append_of_le_length (Nat.le_of_lt h)]
  constructor
  · rintro ⟨hlt, hup, hrest⟩
    rw [List.getElem?_append_left (Nat.lt_trans hlt h)] at hup
    exact ⟨hlt, hup, hrest⟩
  · rintro ⟨hlt, hup, hrest⟩
    rw [List.getElem?_append_left (Nat.lt_trans hlt h)]
    exact ⟨hlt, hup, hrest⟩

theorem Matches.lt_length (h : Matches roles i j) : j < roles.length := by
  obtain ⟨a, last, b, rfl, rfl, _⟩ := exists_step h.2.2.1
  simp

/-- A line after all others matches the one since which all that opened has closed. -/
theorem matches_last : Matches (a ++ [role]) i a.length ↔
    role.step? = some D ∧ a[i]?.bind step? = some U ∧ Balanced (a.drop (i + 1)) := by
  constructor
  · rintro ⟨hlt, hup, hdown, hb⟩
    rw [List.getElem?_append_left hlt] at hup
    exact ⟨by simpa using hdown, hup, by simpa using hb⟩
  · rintro ⟨hdown, hup, hb⟩
    have hlt : i < a.length := by
      by_contra hle
      simp [List.getElem?_eq_none (Nat.le_of_not_lt hle)] at hup
    refine ⟨hlt, ?_, by simpa using hdown, by simpa using hb⟩
    rwa [List.getElem?_append_left hlt]

theorem waits_append (h : n ≤ a.length) : Waits (a ++ b) n i ↔ Waits a n i := by
  constructor
  · rintro ⟨hlt, hup, hno⟩
    rw [List.getElem?_append_left (Nat.lt_of_lt_of_le hlt h)] at hup
    exact ⟨hlt, hup, fun j hj hm => hno j hj ((matches_append (Nat.lt_of_lt_of_le hj h)).2 hm)⟩
  · rintro ⟨hlt, hup, hno⟩
    refine ⟨hlt, ?_, fun j hj hm => hno j hj ((matches_append (Nat.lt_of_lt_of_le hj h)).1 hm)⟩
    rwa [List.getElem?_append_left (Nat.lt_of_lt_of_le hlt h)]

/-- What stands from a line on does not count for its depth. -/
theorem depth_append (h : n ≤ a.length) : depth (a ++ b) n = depth a n := by
  simp only [depth, waits_append h]

theorem depth_eq_length {waiting : List Nat} (hn : waiting.Nodup) (h : ∀ i, Waits roles n i ↔ i ∈ waiting) :
    depth roles n = waiting.length := by
  rw [depth, List.countP_eq_length_filter]
  apply List.Perm.length_eq
  apply (List.perm_ext_iff_of_nodup (List.nodup_range.filter _) hn).2
  intro i
  simp only [List.mem_filter, List.mem_range, decide_eq_true_eq, ← h]
  exact ⟨And.right, fun hw => ⟨hw.1, hw⟩⟩

/-- At the end of the lines, those wait that nothing came down below. -/
theorem waits_end_iff : Waits roles roles.length i ↔
    ∃ a first b, roles = a ++ first :: b ∧ a.length = i ∧ first.step? = some U ∧ Stays b := by
  constructor
  · rintro ⟨_, hup, hno⟩
    obtain ⟨a, first, b, rfl, rfl, hf⟩ := exists_step hup
    refine ⟨a, first, b, rfl, rfl, hf, ?_⟩
    by_contra hs
    obtain ⟨between, last, later, rfl, hl, hb⟩ := exists_descent hs
    refine hno (a ++ first :: between).length (by simp) (matches_iff.2 ?_)
    exact ⟨a, first, between, last, later, by simp, rfl, rfl, hf, hl, hb⟩
  · rintro ⟨a, first, b, rfl, rfl, hf, hs⟩
    refine ⟨by simp, by simp [hf], fun j _ hm => ?_⟩
    obtain ⟨a', first', between, last, later, heq, hlen, -, -, hl, hb⟩ := matches_iff.1 hm
    rw [List.append_assoc] at heq
    obtain ⟨rfl, htail⟩ := List.append_inj heq hlen.symm
    obtain ⟨rfl, rfl⟩ := List.cons.inj htail
    have hlow := hs (between ++ [last]) (by simp)
    rw [height_append, hb.height_eq, height_cons_down hl, height_nil] at hlow
    omega

theorem Waits.of_append (h : Waits (a ++ b) (a ++ b).length i) (hi : i < a.length) :
    Waits a a.length i := by
  have hle : a.length ≤ (a ++ b).length := by simp
  exact (waits_append (Nat.le_refl _)).1 ⟨hi, h.2.1, fun j hj => h.2.2 j (Nat.lt_of_lt_of_le hj hle)⟩

/-- Two ways to name a line in the same lines: one comes first, or they are the same. -/
theorem split_cases {x y : List LineRole} {p q : LineRole} (h : a ++ p :: x = b ++ q :: y) :
    (∃ z, b = a ++ p :: z ∧ x = z ++ q :: y) ∨ (a = b ∧ p = q ∧ x = y) ∨
      ∃ z, a = b ++ q :: z ∧ y = z ++ p :: x := by
  rcases List.append_eq_append_iff.1 h with ⟨z, rfl, hz⟩ | ⟨z, rfl, hz⟩ <;> cases z <;>
    simp_all

theorem waits_append_balanced (hb : Balanced b) :
    Waits (a ++ b) (a ++ b).length i ↔ Waits a a.length i := by
  constructor
  · intro h
    apply h.of_append
    by_contra hle
    obtain ⟨front, first, y, heq, rfl, hf, hs⟩ := waits_end_iff.1 h
    obtain ⟨z, rfl⟩ : a <+: front :=
      List.prefix_of_prefix_length_le ⟨b, rfl⟩ ⟨first :: y, heq.symm⟩ (Nat.le_of_not_lt hle)
    rw [List.append_assoc, List.append_cancel_left_eq] at heq
    subst heq
    -- an opening line of a balanced stretch is matched there
    have hz := hb.stays z (List.prefix_append _ _)
    have hy := hs y (List.prefix_refl _)
    have hzero := hb.height_eq
    rw [height_append, height_cons_up hf] at hzero
    omega
  · intro h
    obtain ⟨front, first, y, rfl, rfl, hf, hs⟩ := waits_end_iff.1 h
    refine waits_end_iff.2 ⟨front, first, y ++ b, by simp, rfl, hf, stays_append_iff.2 ⟨hs, ?_⟩⟩
    intro part hp
    have hy := hs y (List.prefix_refl _)
    have hpart := hb.stays part hp
    omega

theorem waits_concat_up (h : role.step? = some U) :
    Waits (a ++ [role]) (a ++ [role]).length i ↔ Waits a a.length i ∨ i = a.length := by
  constructor
  · intro hw
    by_cases hi : i < a.length
    · exact .inl (hw.of_append hi)
    · have hlt := hw.1
      simp only [List.length_append, List.length_singleton] at hlt
      right
      omega
  · rintro (hw | rfl)
    · obtain ⟨front, first, y, rfl, rfl, hf, hs⟩ := waits_end_iff.1 hw
      refine waits_end_iff.2 ⟨front, first, y ++ [role], by simp, rfl, hf, stays_concat_iff.2 ⟨hs, ?_⟩⟩
      have hy := hs y (List.prefix_refl _)
      rw [height_append, height_cons_up h, height_nil]
      omega
    · refine waits_end_iff.2 ⟨a, role, [], rfl, rfl, h, fun front hf => ?_⟩
      simp [List.prefix_nil.1 hf]

theorem Waits.of_concat (h : Waits (a ++ [role]) (a ++ [role]).length i) (hr : role.step? ≠ some U) :
    Waits a a.length i := by
  apply h.of_append
  by_contra hle
  have hlt := h.1
  have hup := h.2.1
  simp only [List.length_append, List.length_singleton] at hlt
  obtain rfl : i = a.length := by omega
  exact hr (by simpa using hup)

end AsmOutline.LineRole
