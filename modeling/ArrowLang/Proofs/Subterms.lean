import ArrowLang.Term

/-!
# The children of a term

`Term.children` lists the terms right below a term from left to right, and `Term.children_induction`
is the induction over terms that goes through them.
-/

namespace ArrowLang.Term

/-- The terms right below a term, in the order of the text. -/
def children : Term → List Term
  | bool .. | number .. | var .. => []
  | add _ l r => [l, r]
  | cond _ c y n => [c, y, n]
  | func _ _ b => [b]
  | call _ f as => f :: as
  | seq _ b r => [b, r]
  | const _ _ i r => [i, r]

theorem sizeOf_lt_of_mem_children {c t : Term} (h : c ∈ t.children) : sizeOf c < sizeOf t := by
  cases t with
  | bool | number | var => simp [children] at h
  | func n ps b =>
    obtain rfl : c = b := by simpa [children] using h
    rw [func.sizeOf_spec]
    omega
  | add n l r | seq n l r | const n x l r =>
    obtain rfl | rfl : c = l ∨ c = r := by simpa [children] using h
    all_goals simp only [add.sizeOf_spec, seq.sizeOf_spec, const.sizeOf_spec]; omega
  | cond n d y e =>
    obtain rfl | rfl | rfl : c = d ∨ c = y ∨ c = e := by simpa [children] using h
    all_goals rw [cond.sizeOf_spec]; omega
  | call n f as =>
    rw [call.sizeOf_spec]
    obtain rfl | hmem : c = f ∨ c ∈ as := by simpa [children] using h
    · omega
    · have := List.sizeOf_lt_of_mem hmem
      omega

@[elab_as_elim]
theorem children_induction {motive : Term → Prop}
    (step : ∀ t, (∀ c ∈ t.children, motive c) → motive t) (t : Term) : motive t :=
  step t fun c _ => children_induction step c
termination_by sizeOf t
decreasing_by exact sizeOf_lt_of_mem_children ‹_›

end ArrowLang.Term
