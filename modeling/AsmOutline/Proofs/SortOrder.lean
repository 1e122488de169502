import AsmOutline.Sorting
import Mathlib.Data.List.Pairwise

/-! # Sorting puts in order

The result of a stable sort is ordered, and where no two items are equal under the order
it is the only ordered permutation. To leave items out before the sort or after it is the same.
-/
namespace AsmOutline

variable {α : Type} {le : α → α → Bool}

/-- Two members of an ordered list are the same, or one of them comes first. -/
theorem eq_or_rel_of_pairwise {R : α → α → Prop} {as : List α} (h : as.Pairwise R) {a b : α} (ha : a ∈ as)
    (hb : b ∈ as) : a = b ∨ R a b ∨ R b a := by
  let Related : α → α → Prop := fun x y => x = y ∨ R x y ∨ R y x
  have hsymm : Std.Symm Related := by
    refine ⟨fun x y hxy => ?_⟩
    rcases hxy with hxy | hxy | hxy
    · exact .inl hxy.symm
    · exact .inr (.inr hxy)
    · exact .inr (.inl hxy)
  have hrelated : as.Pairwise Related := h.imp fun hxy => .inr (.inl hxy)
  exact hrelated.forall_of_forall (fun _ _ => .inl rfl) ha hb

theorem insertInOrder_pairwise (total : ∀ a b, le a b = true ∨ le b a = true)
    (trans : ∀ a b c, le a b = true → le b c = true → le a c = true) {a : α} {bs : List α}
    (h : bs.Pairwise (fun x y => le x y = true)) :
    (insertInOrder le a bs).Pairwise (fun x y => le x y = true) := by
  induction bs with
  | nil => exact List.pairwise_singleton _ _
  | cons b bs ih =>
    obtain ⟨hb, hbs⟩ := List.pairwise_cons.1 h
    unfold insertInOrder
    split
    · next hab =>
      refine List.pairwise_cons.2 ⟨?_, h⟩
      intro x hx
      rcases List.mem_cons.1 hx with rfl | hx
      · exact hab
      · exact trans a b x hab (hb x hx)
    · next hab =>
      refine List.pairwise_cons.2 ⟨?_, ih hbs⟩
      intro x hx
      rcases List.mem_cons.1 ((insertInOrder_perm le a bs).mem_iff.1 hx) with rfl | hx
      · exact (total b x).resolve_right hab
      · exact hb x hx

theorem sortStable_pairwise (total : ∀ a b, le a b = true ∨ le b a = true)
    (trans : ∀ a b c, le a b = true → le b c = true → le a c = true) (as : List α) :
    (sortStable le as).Pairwise (fun x y => le x y = true) := by
  induction as with
  | nil => exact .nil
  | cons a as ih => exact insertInOrder_pairwise total trans ih

/-- A strictly ordered list is what sorting makes of any of its permutations. -/
theorem sortStable_eq_of_perm (total : ∀ a b, le a b = true ∨ le b a = true)
    (trans : ∀ a b c, le a b = true → le b c = true → le a c = true) {as bs : List α} (hp : as.Perm bs)
    (hb : bs.Pairwise (fun x y => le x y = true ∧ le y x = false)) : sortStable le as = bs := by
  have hperm : (sortStable le as).Perm bs := (sortStable_perm le as).trans hp
  apply hperm.eq_of_pairwise ?_ (sortStable_pairwise total trans as) (hb.imp And.left)
  intro x y hx hy hxy hyx
  rcases eq_or_rel_of_pairwise hb (hperm.mem_iff.1 hx) hy with heq | hlt | hlt
  · exact heq
  · rw [hlt.2] at hyx
    cases hyx
  · rw [hlt.2] at hxy
    cases hxy

theorem insertInOrder_of_le {a : α} {bs : List α} (h : ∀ b ∈ bs, le a b = true) :
    insertInOrder le a bs = a :: bs := by
  cases bs with
  | nil => rfl
  | cons b bs => rw [insertInOrder, if_pos (h b List.mem_cons_self)]

theorem filter_insertInOrder (trans : ∀ a b c, le a b = true → le b c = true → le a c = true) (p : α → Bool)
    {a : α} {bs : List α} (h : bs.Pairwise (fun x y => le x y = true)) :
    (insertInOrder le a bs).filter p = if p a then insertInOrder le a (bs.filter p) else bs.filter p := by
  induction bs with
  | nil => by_cases ha : p a = true <;> simp [insertInOrder, ha]
  | cons b bs ih =>
    obtain ⟨hb, hbs⟩ := List.pairwise_cons.1 h
    by_cases hab : le a b = true
    · -- in an ordered list `a` comes before all that is left after `b`
      have hall : ∀ x ∈ b :: bs, le a x = true := by
        intro x hx
        rcases List.mem_cons.1 hx with rfl | hx
        · exact hab
        · exact trans a b x hab (hb x hx)
      rw [insertInOrder, if_pos hab,
        insertInOrder_of_le fun x hx => hall x (List.mem_filter.1 hx).1, List.filter_cons]
    · by_cases hpb : p b = true
      · rw [insertInOrder, if_neg hab, List.filter_cons_of_pos hpb, ih hbs, List.filter_cons_of_pos hpb,
          insertInOrder, if_neg hab, apply_ite (b :: ·)]
      · rw [insertInOrder, if_neg hab, List.filter_cons_of_neg hpb, ih hbs, List.filter_cons_of_neg hpb]

theorem filter_sortStable (total : ∀ a b, le a b = true ∨ le b a = true)
    (trans : ∀ a b c, le a b = true → le b c = true → le a c = true) (p : α → Bool) (as : List α) :
    (sortStable le as).filter p = sortStable le (as.filter p) := by
  induction as with
  | nil => rfl
  | cons a as ih =>
    rw [sortStable, filter_insertInOrder trans p (sortStable_pairwise total trans as), ih, List.filter_cons]
    by_cases ha : p a = true <;> simp [ha, sortStable]

end AsmOutline
