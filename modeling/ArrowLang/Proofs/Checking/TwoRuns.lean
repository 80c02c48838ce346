import Mathlib.Data.List.Forall2
import ArrowLang.Proofs.Checking.Steps

/-!
# Two checks side by side

Two checks agree if they enter equally many nodes and come to related types or to related errors. A
`Simulation` relates places of two checks, each a term under an environment, from which both checks
make moves that agree and lead to related places again. By it the checks agree as a whole.
-/

namespace ArrowLang

variable {α β γ δ : Type} {E : TypeError → TypeError → Prop}

/-- Two results that agree: values that `R` relates, or errors that `E` relates. -/
inductive Agree (R : α → β → Prop) (E : TypeError → TypeError → Prop) :
    Except TypeError α → Except TypeError β → Prop where
  | ok {a b} : R a b → Agree R E (.ok a) (.ok b)
  | error {e e'} : E e e' → Agree R E (.error e) (.error e')

theorem Agree.exists_error {R : α → β → Prop} {x : Except TypeError α} {e' : TypeError}
    (h : Agree R E x (.error e')) : ∃ e, x = .error e ∧ E e e' := by
  cases h with
  | error he => exact ⟨_, rfl, he⟩

namespace Traced

/-- Two runs that agree and enter equally many nodes. -/
structure InStep (R : α → β → Prop) (E : TypeError → TypeError → Prop) (x : Traced α)
    (y : Traced β) : Prop where
  visits : x.visits.length = y.visits.length
  result : Agree R E x.result y.result

namespace InStep

variable {R : α → β → Prop} {S : γ → δ → Prop}

theorem pure {a : α} {b : β} (h : R a b) : InStep R E (Pure.pure a) (Pure.pure b) :=
  ⟨rfl, .ok h⟩

theorem fail {c c' : TypeError.Cause} {t t' : Term} (h : E ⟨c, t⟩ ⟨c', t'⟩) :
    InStep R E (fail c t) (fail c' t') :=
  ⟨rfl, .error h⟩

theorem enter {env env' : Env} {t t' : Term} :
    InStep (fun _ _ => True) E (enter env t) (enter env' t') :=
  ⟨rfl, .ok trivial⟩

theorem bind {x : Traced α} {y : Traced β} {f : α → Traced γ} {g : β → Traced δ}
    (h : InStep R E x y) (hfg : ∀ a b, R a b → InStep S E (f a) (g b)) :
    InStep S E (x >>= f) (y >>= g) := by
  obtain ⟨xr, xv, xc⟩ := x
  obtain ⟨yr, yv, yc⟩ := y
  obtain ⟨hvisits, hresult⟩ := h
  dsimp only at hvisits hresult
  cases hresult with
  | error he =>
    rw [bind_eq_of_error (e := _) rfl, bind_eq_of_error (e := _) rfl]
    exact ⟨hvisits, .error he⟩
  | ok hab =>
    have hrest := hfg _ _ hab
    rw [bind_eq_of_ok (a := _) rfl, bind_eq_of_ok (a := _) rfl]
    exact ⟨by simp [hvisits, hrest.visits], hrest.result⟩

end InStep

end Traced

/-- Two moves that agree after the first `i` children of the terms `t` and `t'`. Children that they
enter are related by `S`. -/
inductive Move.Agree (R : Ty → Ty → Prop) (E : TypeError → TypeError → Prop)
    (S : Env → Term → Env → Term → Prop) (env : Env) (t : Term) (env' : Env) (t' : Term) (i : Nat) :
    Except Objection Move → Except Objection Move → Prop where
  | enter {bs bs'} :
      (∀ c c', t.children[i]? = some c → t'.children[i]? = some c' →
        S (env.extend bs) c (env'.extend bs') c') →
      Move.Agree R E S env t env' t' i (.ok (.enter bs)) (.ok (.enter bs'))
  | done {T T'} : R T T' → Move.Agree R E S env t env' t' i (.ok (.done T)) (.ok (.done T'))
  | error {o o'} : E ⟨o.cause, t.blame o.child⟩ ⟨o'.cause, t'.blame o'.child⟩ →
      Move.Agree R E S env t env' t' i (.error o) (.error o')

/-- `S` relates places from which two checks make moves that agree, wherever the types of the
children before are related by `R`. -/
structure Simulation (R : Ty → Ty → Prop) (E : TypeError → TypeError → Prop)
    (S : Env → Term → Env → Term → Prop) : Prop where
  default : R default default
  width {env t env' t'} : S env t env' t' → t.children.length = t'.children.length
  move {env t env' t' types types'} : S env t env' t' → List.Forall₂ R types types' →
    Move.Agree R E S env t env' t' types.length (t.head.move env t.children.length types)
      (t'.head.move env' t'.children.length types')

open Traced

variable {R : Ty → Ty → Prop} {S : Env → Term → Env → Term → Prop} {env env' : Env} {t t' : Term}
  {types types' : List Ty}

theorem Move.Agree.resume {i : Nat}
    (h : Move.Agree R E S env t env' t' i (t.head.move env t.children.length types)
      (t'.head.move env' t'.children.length types'))
    {go go' : Env → Traced Ty}
    (hgo : ∀ bs bs',
      (∀ c c', t.children[i]? = some c → t'.children[i]? = some c' →
        S (env.extend bs) c (env'.extend bs') c') →
      InStep R E (go (env.extend bs)) (go' (env'.extend bs'))) :
    InStep R E (t.resume env types go) (t'.resume env' types' go') := by
  rw [Term.resume, Term.resume]
  generalize t.head.move env t.children.length types = m at h
  generalize t'.head.move env' t'.children.length types' = m' at h
  cases h with
  | enter hS => exact hgo _ _ hS
  | done hT => exact .pure hT
  | error he => exact .fail he

namespace Simulation

/-- Walks agree from any child on if the checks of related children do. -/
theorem walk (h : Simulation R E S) (hS : S env t env' t')
    (ih : ∀ c ∈ t.children, ∀ env c' env', S env c env' c' →
      InStep R E (c.infer env) (c'.infer env'))
    (htypes : List.Forall₂ R types types') {cs cs' : List Term}
    (hcs : t.children.drop types.length = cs) (hcs' : t'.children.drop types.length = cs') :
    InStep R E (t.walk env types cs) (t'.walk env' types' cs') := by
  have hlength : cs.length = cs'.length := by
    rw [← hcs, ← hcs', List.length_drop, List.length_drop, h.width hS]
  induction cs generalizing types types' cs' with
  | nil =>
    obtain rfl : cs' = [] := by simpa using hlength.symm
    exact (h.move hS htypes).resume fun _ _ _ => .pure h.default
  | cons c cs ihcs =>
    obtain ⟨c', cs', rfl⟩ := List.exists_cons_of_length_eq_add_one hlength.symm
    have hc : t.children[types.length]? = some c := by
      rw [← List.head?_drop, hcs, List.head?_cons]
    have hc' : t'.children[types.length]? = some c' := by
      rw [← List.head?_drop, hcs', List.head?_cons]
    refine (h.move hS htypes).resume fun bs bs' hchild => ?_
    refine (ih c (List.mem_of_getElem? hc) _ c' _ (hchild c c' hc hc')).bind fun T T' hT => ?_
    refine ihcs (List.rel_append htypes (.cons hT .nil)) ?_ ?_ (by simpa using hlength)
    · rw [List.length_append, ← List.drop_drop, hcs]; rfl
    · rw [List.length_append, ← List.drop_drop, hcs']; rfl

/-- Checks from related places agree. -/
theorem infer (h : Simulation R E S) (hS : S env t env' t') :
    InStep R E (t.infer env) (t'.infer env') := by
  induction t using Term.children_induction generalizing env t' env' with
  | step t ih =>
    rw [Term.infer_eq_walk, Term.infer_eq_walk]
    refine InStep.enter.bind fun _ _ _ => ?_
    exact h.walk hS (fun c hc env c' env' => ih c hc) .nil rfl rfl

end Simulation

/-! ## Terms node by node -/

/-- `t.Like H u`: the nodes of `t` and `u` correspond. They have the same numbers, and `H` relates
their heads by number. Spans play no part. -/
inductive Term.Like (H : Nat → Head → Head → Prop) : Term → Term → Prop where
  | node {t u : Term} : t.id = u.id → H t.id t.head u.head →
      t.children.length = u.children.length →
      (∀ (i : Nat) (c d : Term), t.children[i]? = some c → u.children[i]? = some d → Like H c d) →
      Like H t u

namespace Term.Like

variable {H : Nat → Head → Head → Prop} {t u : Term}

theorem id_eq (h : t.Like H u) : t.id = u.id := by
  cases h with
  | node hid => exact hid

theorem head (h : t.Like H u) : H t.id t.head u.head := by
  cases h with
  | node _ hhead => exact hhead

theorem length_eq (h : t.Like H u) : t.children.length = u.children.length := by
  cases h with
  | node _ _ hlength => exact hlength

theorem child (h : t.Like H u) {i : Nat} {c d : Term} (hc : t.children[i]? = some c)
    (hd : u.children[i]? = some d) : c.Like H d := by
  cases h with
  | node _ _ _ hchild => exact hchild i c d hc hd

theorem of_forall₂ (hid : t.id = u.id) (hhead : H t.id t.head u.head)
    (h : List.Forall₂ (Like H) t.children u.children) : t.Like H u := by
  refine .node hid hhead h.length_eq fun i c d hc hd => ?_
  obtain ⟨hi, rfl⟩ := List.getElem?_eq_some_iff.1 hc
  obtain ⟨hi', rfl⟩ := List.getElem?_eq_some_iff.1 hd
  exact h.get hi hi'

theorem trans {G K : Nat → Head → Head → Prop} {w : Term} (h : t.Like G u) (h' : u.Like H w)
    (hK : ∀ i a b c, G i a b → H i b c → K i a c) : t.Like K w := by
  induction h generalizing w with
  | @node t u hid hhead hlength _ ih =>
    refine .node (hid.trans h'.id_eq) (hK _ _ _ _ hhead (hid ▸ h'.head))
      (hlength.trans h'.length_eq) fun i c d hc hd => ?_
    obtain ⟨b, hb⟩ : ∃ b, u.children[i]? = some b := by
      have hi := (List.getElem?_eq_some_iff.1 hc).1
      exact ⟨_, List.getElem?_eq_getElem (hlength ▸ hi)⟩
    exact ih i c b hc hb (h'.child hb hd)

/-- An objection is about the same node of both. -/
theorem blame_id (h : t.Like H u) (o : Option Nat) : (t.blame o).id = (u.blame o).id := by
  cases o with
  | none => exact h.id_eq
  | some i =>
    have hlength := h.length_eq
    rcases Nat.lt_or_ge i t.children.length with hi | hi
    · have hc := List.getElem?_eq_getElem hi
      have hd := List.getElem?_eq_getElem (hlength ▸ hi)
      simpa [blame, hc, hd] using (h.child hc hd).id_eq
    · simpa [blame, List.getElem?_eq_none hi, List.getElem?_eq_none (hlength ▸ hi)] using h.id_eq

end Term.Like

/-- A check does not look at spans. -/
theorem simulation_spans : Simulation Eq (fun e e' => e.cause = e'.cause ∧ e.term.id = e'.term.id)
    fun env t env' t' => env = env' ∧ t.Like (fun _ => Eq) t' where
  default := rfl
  width h := h.2.length_eq
  move := by
    rintro env t _ t' types types' ⟨rfl, hlike⟩ htypes
    obtain rfl := List.forall₂_eq_eq_eq ▸ htypes
    rw [← show t.head = t'.head from hlike.head, ← hlike.length_eq]
    cases t.head.move env t.children.length types with
    | error o => exact .error ⟨rfl, hlike.blame_id o.child⟩
    | ok m =>
      cases m with
      | enter bs => exact .enter fun c c' hc hc' => ⟨rfl, hlike.child hc hc'⟩
      | done T => exact .done rfl

end ArrowLang
