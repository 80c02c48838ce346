import Mathlib.Data.List.Intervals
import ArrowLang.Proofs.Checking.TwoRuns
import ArrowLang.Proofs.Grammar.Extent

/-!
# Numbers of nodes

`Term.ids` lists the numbers of all nodes of a term, children before their parent. In a term that is
written they are the numbers from `i` up to `j`, each once and in order. So a number tells a node
from all others, and terms of one shape agree node by node (`Like.of_counts`).
-/

namespace ArrowLang

/-! ## Lists of numbers -/

namespace Term

mutual

/-- The numbers of all nodes: those of the children from left to right, then that of the node. -/
def ids : Term → List Nat
  | bool n _ | number n _ | var n _ => [n.id]
  | add n l r => l.ids ++ r.ids ++ [n.id]
  | cond n c y e => c.ids ++ y.ids ++ e.ids ++ [n.id]
  | func n _ b => b.ids ++ [n.id]
  | call n f as => f.ids ++ idsAll as ++ [n.id]
  | seq n b r => b.ids ++ r.ids ++ [n.id]
  | const n _ i r => i.ids ++ r.ids ++ [n.id]

def idsAll : List Term → List Nat
  | [] => []
  | t :: ts => t.ids ++ idsAll ts

end

theorem idsAll_eq_flatMap (ts : List Term) : idsAll ts = ts.flatMap ids := by
  induction ts with
  | nil => rfl
  | cons t ts ih => rw [idsAll, ih, List.flatMap_cons]

theorem ids_eq (t : Term) : t.ids = t.children.flatMap ids ++ [t.id] := by
  cases t <;> simp [ids, children, id, node, idsAll_eq_flatMap]

@[simp] theorem ids_withSpan (s : Span) (t : Term) : (t.withSpan s).ids = t.ids := by
  cases t <;> rfl

theorem Within.id_mem_ids {n t : Term} (h : n.Within t) : n.id ∈ t.ids := by
  induction h with
  | refl => simp [ids_eq n]
  | @child c t hc _ ih =>
    rw [ids_eq t]
    exact List.mem_append_left _ (List.mem_flatMap.2 ⟨c, hc, ih⟩)

/-- In a term without double numbers, a number in one child is nowhere else. -/
theorem nodup_ids_child {t c : Term} {l r : List Term} {p : Nat} (h : t.ids.Nodup)
    (ht : t.children = l ++ c :: r) (hp : p ∈ c.ids) :
    c.ids.Nodup ∧ t.id ≠ p ∧ ∀ b ∈ l ++ r, p ∉ b.ids := by
  rw [ids_eq, ht, List.flatMap_append, List.flatMap_cons] at h
  simp only [List.nodup_append, List.mem_append, List.mem_flatMap] at h
  grind

end Term

/-- The numbers from `i` up to `j`, in their order. -/
def Counts (i : Nat) (ns : List Nat) (j : Nat) : Prop := i ≤ j ∧ ns = List.Ico i j

namespace Counts

variable {i j k : Nat} {ms ns : List Nat}

theorem nil : Counts i [] i := ⟨Nat.le_refl i, by simp⟩

theorem append (h : Counts i ms j) (h' : Counts j ns k) : Counts i (ms ++ ns) k := by
  refine ⟨Nat.le_trans h.1 h'.1, ?_⟩
  rw [h.2, h'.2, List.Ico.append_consecutive h.1 h'.1]

theorem concat (h : Counts i ns j) : Counts i (ns ++ [j]) (j + 1) :=
  h.append ⟨Nat.le_succ j, by simp⟩

end Counts

namespace Written

mutual

theorem Expr.counts {i j : Nat} {ts : List Token} {t : Term} : Expr i ts t j → Counts i t.ids j
  | .sum hsum => hsum.counts
  | .cond hsum hyes hno => ((hsum.counts.append hyes.counts).append hno.counts).concat

theorem Sum.counts {o : Bool} {i j : Nat} {ts : List Token} {t : Term} :
    Sum o i ts t j → Counts i t.ids j
  | .operand hop => hop.counts
  | .add hsum hop => (hsum.counts.append hop.counts).concat

theorem Operand.counts {o : Bool} {i j : Nat} {ts : List Token} {t : Term} :
    Operand o i ts t j → Counts i t.ids j
  | .closed hpost => hpost.counts
  | .arrow _ hbody => hbody.counts.concat

theorem Postfix.counts {i j : Nat} {ts : List Token} {t : Term} :
    Postfix i ts t j → Counts i t.ids j
  | .atom hatom => hatom.counts
  | .call hpost hargs => (hpost.counts.append hargs.counts).concat

theorem Atom.counts {i j : Nat} {ts : List Token} {t : Term} : Atom i ts t j → Counts i t.ids j
  | .number | .bool | .var => Counts.nil.concat
  | .paren hexpr => by
    rw [Term.ids_withSpan]
    exact hexpr.counts

theorem Args.counts {i j : Nat} {ts : List Token} {as : List Term} :
    Args i ts as j → Counts i (Term.idsAll as) j
  | .nil => .nil
  | .last hexpr => hexpr.counts.append .nil
  | .cons hexpr hargs => hexpr.counts.append hargs.counts

end

theorem Statements.counts {i j : Nat} {ts : List Token} {t : Term} (h : Statements i ts t j) :
    Counts i t.ids j := by
  induction h with
  | last hexpr => exact hexpr.counts
  | seq hexpr _ ih | const hexpr _ ih => exact (hexpr.counts.append ih).concat

theorem Statements.nodup_ids {i j : Nat} {ts : List Token} {t : Term} (h : Statements i ts t j) :
    t.ids.Nodup := by
  rw [h.counts.2]
  exact List.Ico.nodup i j

end Written

/-! ## Terms of one shape -/

namespace Term

theorem Like.refl {H : Nat → Head → Head → Prop} {t : Term}
    (h : ∀ i ∈ t.ids, ∀ a, H i a a) : t.Like H t := by
  induction t using children_induction with
  | step t ih =>
    rw [ids_eq t] at h
    refine .node rfl (h _ (by simp) _) rfl fun i c d hc hd => ?_
    obtain rfl := Option.some.inj (hc.symm.trans hd)
    have hmem := List.mem_of_getElem? hc
    exact ih c hmem fun i hi => h i (List.mem_append_left _ (List.mem_flatMap.2 ⟨c, hmem, hi⟩))

theorem shapes_eq_map (ts : List Term) : shapes ts = ts.map shape := by
  induction ts with
  | nil => rfl
  | cons t ts ih => rw [shapes, ih, List.map_cons]

/-- A shape is a head with the shapes of the children. -/
theorem head_eq_of_shape {t u : Term} (h : t.shape = u.shape) :
    t.head = u.head ∧ t.children.map shape = u.children.map shape := by
  cases t <;> cases u <;> simp_all [shape, head, children, shapes_eq_map]

/-- If the terms of a list are told from those of another by shape and numbers, then so are the
lists, whatever numbers come after. -/
theorem forall₂_like_of_ids {cs ds : List Term} {ms ns : List Nat}
    (ih : ∀ c ∈ cs, ∀ d ms ns, c.shape = d.shape → c.ids ++ ms = d.ids ++ ns →
      c.Like (fun _ => Eq) d ∧ ms = ns)
    (hshape : cs.map shape = ds.map shape)
    (hids : cs.flatMap ids ++ ms = ds.flatMap ids ++ ns) :
    List.Forall₂ (Like fun _ => Eq) cs ds ∧ ms = ns := by
  induction cs generalizing ds with
  | nil =>
    obtain rfl : ds = [] := by simpa using hshape.symm
    exact ⟨.nil, hids⟩
  | cons c cs ihcs =>
    obtain ⟨d, ds, rfl, hd, hds⟩ := List.map_eq_cons_iff.1 hshape.symm
    rw [List.flatMap_cons, List.flatMap_cons, List.append_assoc, List.append_assoc] at hids
    obtain ⟨hlike, hrest⟩ := ih c (by simp) d _ _ hd.symm hids
    obtain ⟨hlikes, hms⟩ := ihcs (fun c hc => ih c (by simp [hc])) hds.symm hrest
    exact ⟨.cons hlike hlikes, hms⟩

theorem like_and_eq_of_ids {t u : Term} (ms ns : List Nat) (hshape : t.shape = u.shape)
    (hids : t.ids ++ ms = u.ids ++ ns) : t.Like (fun _ => Eq) u ∧ ms = ns := by
  induction t using children_induction generalizing u ms ns with
  | step t ih =>
    obtain ⟨hhead, hchildren⟩ := head_eq_of_shape hshape
    rw [ids_eq, ids_eq, List.append_assoc, List.append_assoc] at hids
    obtain ⟨hlikes, hrest⟩ := forall₂_like_of_ids (fun c hc d ms ns => ih c hc ms ns) hchildren hids
    obtain ⟨hid, hms⟩ := List.cons.inj hrest
    exact ⟨.of_forall₂ hid hhead hlikes, hms⟩

/-- Terms of one shape whose numbers start alike agree node by node. -/
theorem Like.of_counts {t u : Term} {i j k : Nat} (hshape : t.shape = u.shape)
    (ht : Counts i t.ids j) (hu : Counts i u.ids k) : t.Like (fun _ => Eq) u := by
  obtain ⟨hij, ht⟩ := ht
  obtain ⟨hik, hu⟩ := hu
  rcases Nat.le_total j k with hjk | hkj
  · refine (like_and_eq_of_ids (List.Ico j k) [] hshape ?_).1
    rw [ht, hu, List.Ico.append_consecutive hij hjk, List.append_nil]
  · refine (like_and_eq_of_ids [] (List.Ico k j) hshape ?_).1
    rw [ht, hu, List.Ico.append_consecutive hik hkj, List.append_nil]

end Term

end ArrowLang
