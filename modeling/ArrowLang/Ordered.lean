/-!
# Stable insertion sort

Sorting only moves elements (`sort_perm`).
-/

namespace ArrowLang.Ordered

variable {α : Type}

/-- Puts an element before the first one that it may stand before. -/
def insert (le : α → α → Bool) (a : α) : List α → List α
  | [] => [a]
  | b :: bs => if le a b then a :: b :: bs else b :: insert le a bs

/-- The elements in order. Those that may stand either way keep their places. -/
def sort (le : α → α → Bool) (as : List α) : List α := as.foldr (insert le) []

theorem insert_perm (le : α → α → Bool) (a : α) (bs : List α) :
    (insert le a bs).Perm (a :: bs) := by
  induction bs with
  | nil => exact .refl _
  | cons b bs ih =>
    unfold insert
    split
    · exact .refl _
    · exact (ih.cons b).trans (.swap a b bs)

theorem sort_perm (le : α → α → Bool) (as : List α) : (sort le as).Perm as := by
  induction as with
  | nil => exact .refl _
  | cons a as ih => exact (insert_perm le a _).trans (ih.cons a)

end ArrowLang.Ordered
