import Mathlib.Data.List.Sort
import ArrowLang.Ordered

/-!
# Sorted lists

`Ordered.sort` is the insertion sort of the library, so what it gives is in order wherever any two
elements can be put in order (`sort_pairwise`).
-/

namespace ArrowLang.Ordered

variable {α : Type}

theorem insert_eq_orderedInsert (le : α → α → Bool) (a : α) (bs : List α) :
    insert le a bs = bs.orderedInsert (fun a b => le a b = true) a := by
  induction bs with
  | nil => rfl
  | cons b bs ih => rw [insert, List.orderedInsert, ih]

theorem sort_eq_insertionSort (le : α → α → Bool) (as : List α) :
    sort le as = as.insertionSort (fun a b => le a b = true) := by
  induction as with
  | nil => rfl
  | cons a as ih =>
    rw [sort, List.foldr_cons, ← sort, ih, insert_eq_orderedInsert]
    rfl

theorem sort_pairwise {le : α → α → Bool} (total : ∀ a b, le a b = true ∨ le b a = true)
    (trans : ∀ a b c, le a b = true → le b c = true → le a c = true) (as : List α) :
    (sort le as).Pairwise fun a b => le a b = true := by
  have : Std.Total fun a b => le a b = true := ⟨total⟩
  have : IsTrans α fun a b => le a b = true := ⟨trans⟩
  rw [sort_eq_insertionSort]
  exact List.pairwise_insertionSort _ as

end ArrowLang.Ordered
