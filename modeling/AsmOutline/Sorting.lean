/-! # Stable sorting

Items that are equal under the order keep their places.
-/
namespace AsmOutline

variable {α : Type}

def insertInOrder (le : α → α → Bool) (a : α) : List α → List α
  | [] => [a]
  | b :: bs => if le a b then a :: b :: bs else b :: insertInOrder le a bs

def sortStable (le : α → α → Bool) : List α → List α
  | [] => []
  | a :: as => insertInOrder le a (sortStable le as)

theorem insertInOrder_perm (le : α → α → Bool) (a : α) (bs : List α) :
    (insertInOrder le a bs).Perm (a :: bs) := by
  induction bs with
  | nil => exact .refl _
  | cons b bs ih =>
    unfold insertInOrder
    split
    · exact .refl _
    · exact (ih.cons b).trans (.swap a b bs)

theorem sortStable_perm (le : α → α → Bool) (as : List α) : (sortStable le as).Perm as := by
  induction as with
  | nil => exact .refl _
  | cons a as ih => exact (insertInOrder_perm le a _).trans (ih.cons a)

end AsmOutline
