import ArrowLang.Proofs.FreeVariables

/-!
# Constants in place

`t.subst x v` is the term `t` with `v` for every free occurrence of `x`. If `v` has a type and no
free variables, then a constant `x` that stands for `v` may as well be written out: the check of the
rest after the constant and the check of the rest with `v` in place come to the same type, or to
errors of one kind.
-/

namespace ArrowLang

/-! ## Terms in place of a variable -/

namespace Term

mutual

/-- The term with `v` for the variable `x` wherever `x` is free. A function with a parameter `x`
hides the variable in its body, and a constant `x` hides it in the rest but not in its own term. -/
def subst (t : Term) (x : String) (v : Term) : Term :=
  match t with
  | bool n b => bool n b
  | number n w => number n w
  | var n y => if y = x then v else var n y
  | add n l r => add n (l.subst x v) (r.subst x v)
  | cond n c y e => cond n (c.subst x v) (y.subst x v) (e.subst x v)
  | func n ps b => func n ps (if x ∈ ps.map ParamDecl.name then b else b.subst x v)
  | call n f as => call n (f.subst x v) (substAll as x v)
  | seq n b r => seq n (b.subst x v) (r.subst x v)
  | const n y i r => const n y (i.subst x v) (if y = x then r else r.subst x v)

def substAll (ts : List Term) (x : String) (v : Term) : List Term :=
  match ts with
  | [] => []
  | t :: ts => t.subst x v :: substAll ts x v

end

variable {x : String} {v t c : Term}

theorem substAll_eq_map (ts : List Term) (x : String) (v : Term) :
    substAll ts x v = ts.map (·.subst x v) := by
  induction ts with
  | nil => rfl
  | cons t ts ih => rw [substAll, ih, List.map_cons]

/-- All terms but the variable itself keep what they are, and so do children that hide it. -/
theorem subst_eq (h : t.head ≠ .var x) :
    (t.subst x v).head = t.head ∧ (t.subst x v).children.length = t.children.length ∧
      ∀ i c, t.children[i]? = some c → (t.subst x v).children[i]? =
        some (if x ∈ t.head.binds i then c else c.subst x v) := by
  cases t with
  | bool | number => simp [subst, children]
  | var n y =>
    have hy : y ≠ x := by
      rintro rfl
      exact h rfl
    simp [subst, hy, children]
  | func n ps b =>
    refine ⟨rfl, rfl, ?_⟩
    intro i c hc
    obtain ⟨rfl, rfl⟩ : i = 0 ∧ b = c := by grind [children]
    simp [subst, children, head, Head.binds, ParamDecl.map_name_toParams]
  | call n f as =>
    refine ⟨rfl, by simp [subst, children, substAll_eq_map], ?_⟩
    intro i c hc
    cases i <;> simp_all [subst, children, head, Head.binds, substAll_eq_map]
  | const n y d r =>
    refine ⟨rfl, rfl, ?_⟩
    intro i c hc
    have hcases : i = 0 ∧ d = c ∨ i = 1 ∧ r = c := by grind [children]
    obtain ⟨rfl, rfl⟩ | ⟨rfl, rfl⟩ := hcases
    · simp [subst, children, head, Head.binds]
    · simp [subst, children, head, Head.binds, eq_comm]
  | add | seq | cond =>
    refine ⟨rfl, rfl, ?_⟩
    intro i c hc
    grind [subst, children, head, Head.binds]

end Term

/-! ## Verdicts alone -/

theorem Agree.bind {α β γ δ : Type} {R : α → β → Prop} {S : γ → δ → Prop}
    {E : TypeError → TypeError → Prop} {x : Except TypeError α} {y : Except TypeError β}
    {f : α → Except TypeError γ} {g : β → Except TypeError δ} (h : Agree R E x y)
    (hfg : ∀ a b, R a b → Agree S E (f a) (g b)) : Agree S E (x >>= f) (y >>= g) := by
  cases h with
  | ok hab => exact hfg _ _ hab
  | error he => exact .error he

theorem Agree.mono {α β : Type} {R : α → β → Prop} {E F : TypeError → TypeError → Prop}
    {x : Except TypeError α} {y : Except TypeError β} (h : Agree R E x y)
    (hEF : ∀ e e', E e e' → F e e') : Agree R F x y := by
  cases h with
  | ok hab => exact .ok hab
  | error he => exact .error (hEF _ _ he)

theorem Agree.eq_ok {α : Type} {E : TypeError → TypeError → Prop} {a : α}
    {y : Except TypeError α} (h : Agree Eq E (.ok a) y) : y = .ok a := by
  cases h with
  | ok hab => rw [hab]

section

variable {E : TypeError → TypeError → Prop} {env env' : Env} {t u : Term} {types : List Ty}

/-- The checks of two terms come to the same type or to related errors. Unlike in a simulation, they
may enter different numbers of nodes on the way. -/
def SameVerdict (E : TypeError → TypeError → Prop) (env : Env) (t : Term) (env' : Env)
    (u : Term) : Prop :=
  Agree Eq E (t.check env) (u.check env')

/-- The moves of two terms agree, and the children that they enter have the same verdicts. -/
def SameMoves (E : TypeError → TypeError → Prop) (env : Env) (t : Term) (env' : Env)
    (u : Term) : Prop :=
  ∀ types, Move.Agree Eq E (SameVerdict E) env t env' u types.length
    (t.head.move env t.children.length types) (u.head.move env' u.children.length types)

theorem SameMoves.resume (h : SameMoves E env t env' u) {go go' : Env → Traced Ty}
    (hgo : ∀ bs bs',
      (∀ c d, t.children[types.length]? = some c → u.children[types.length]? = some d →
        SameVerdict E (env.extend bs) c (env'.extend bs') d) →
      Agree Eq E (go (env.extend bs)).result (go' (env'.extend bs')).result) :
    Agree Eq E (t.resume env types go).result (u.resume env' types go').result := by
  have hnext := h types
  rw [Term.resume, Term.resume]
  generalize t.head.move env t.children.length types = m at hnext
  generalize u.head.move env' u.children.length types = m' at hnext
  cases hnext with
  | enter hchild => exact hgo _ _ hchild
  | done hT => exact .ok hT
  | error he => exact .error he

theorem SameMoves.walk (h : SameMoves E env t env' u) {cs ds : List Term}
    (hcs : t.children.drop types.length = cs) (hds : u.children.drop types.length = ds)
    (hlength : cs.length = ds.length) :
    Agree Eq E (t.walk env types cs).result (u.walk env' types ds).result := by
  induction cs generalizing types ds with
  | nil =>
    obtain rfl : ds = [] := by simpa using hlength.symm
    exact h.resume fun _ _ _ => .ok rfl
  | cons c cs ih =>
    obtain ⟨d, ds, rfl⟩ := List.exists_cons_of_length_eq_add_one hlength.symm
    obtain ⟨hc, hcs'⟩ := getElem?_of_drop_eq_cons hcs
    obtain ⟨hd, hds'⟩ := getElem?_of_drop_eq_cons hds
    apply h.resume
    intro bs bs' hchild
    rw [Traced.result_bind, Traced.result_bind]
    apply Agree.bind (hchild c d hc hd)
    rintro T _ rfl
    apply ih
    · simpa using hcs'
    · simpa using hds'
    · simpa using hlength

/-- Terms with the same moves have the same verdict. -/
theorem SameMoves.verdict (hmove : SameMoves E env t env' u)
    (hwidth : t.children.length = u.children.length) : SameVerdict E env t env' u := by
  rw [SameVerdict, ← Term.result_infer, ← Term.result_infer, Term.infer_eq_walk,
    Term.infer_eq_walk, Traced.result_bind, Traced.result_bind]
  exact hmove.walk rfl rfl hwidth

end

/-! ## Environments with one more name -/

/-- `env` knows `x` by the type `T`, and all other names as `env'` does. -/
structure Env.Knows (env : Env) (x : String) (T : Ty) (env' : Env) : Prop where
  known : env.lookup x = some T
  others : ∀ y, y ≠ x → env.lookup y = env'.lookup y

namespace Env.Knows

variable {env env' : Env} {x : String} {T : Ty} {bs : List (String × Ty)}

theorem extend (h : env.Knows x T env') (hx : x ∉ bs.map Prod.fst) :
    (env.extend bs).Knows x T (env'.extend bs) := by
  have hnone : bs.reverse.lookup x = none := by
    rwa [lookup_eq_none_iff_map_fst, List.map_reverse, List.mem_reverse]
  constructor
  · rw [lookup_extend, hnone, Option.none_or, h.known]
  · intro y hy
    rw [lookup_extend, lookup_extend, h.others y hy]

/-- New bindings that hide `x` hide the difference. -/
theorem lookup_eq (h : env.Knows x T env') (hx : x ∈ bs.map Prod.fst) (y : String) :
    (env.extend bs).lookup y = (env'.extend bs).lookup y := by
  rw [lookup_extend, lookup_extend]
  by_cases hy : y = x
  · subst hy
    cases hlookup : bs.reverse.lookup y with
    | some U => rfl
    | none =>
      rw [lookup_eq_none_iff_map_fst, List.map_reverse, List.mem_reverse] at hlookup
      exact absurd hx hlookup
  · rw [h.others y hy]

end Env.Knows

/-! ## Verdicts on terms in place -/

/-- The same objection with the same types and names, but for the names in scope. -/
def TypeError.SameCause (e e' : TypeError) : Prop :=
  e.cause.withoutScope = e'.cause.withoutScope

theorem TypeError.SameCause.kind {e e' : TypeError} (h : e.SameCause e') :
    e.cause.kind = e'.cause.kind := by
  have hkind (c : Cause) : c.withoutScope.kind = c.kind := by cases c <;> rfl
  rw [← hkind, h, hkind]

theorem sameVerdict_of_lookup {env env' : Env} {t : Term}
    (h : ∀ x ∈ t.freeVars, env.lookup x = env'.lookup x) :
    SameVerdict TypeError.SameCause env t env' t :=
  (simulation_freeVars.infer ⟨rfl, h⟩).result.mono fun _ _ he => he.cause

/-- A term without free variables has its type everywhere. -/
theorem Term.check_of_closed {v : Term} {env : Env} {T : Ty} (hclosed : v.freeVars = [])
    (h : v.check env = .ok T) (env' : Env) : v.check env' = .ok T := by
  have hsame : SameVerdict TypeError.SameCause env v env' v :=
    sameVerdict_of_lookup (by simp [hclosed])
  rw [SameVerdict, h] at hsame
  exact hsame.eq_ok

/-- A check does not see whether a variable or a term of its type stands in a place. -/
theorem sameVerdict_subst {env env' : Env} {x : String} {v : Term} {T : Ty} (t : Term)
    (hv : ∀ env, v.check env = .ok T) (h : env.Knows x T env') :
    SameVerdict TypeError.SameCause env t env' (t.subst x v) := by
  induction t using Term.children_induction generalizing env env' with
  | step t ih =>
    by_cases hvar : ∃ y, t.head = .var y
    · cases t with
      | var n y =>
        by_cases hy : y = x
        · rw [SameVerdict, Term.subst, if_pos hy, hv, hy, Term.check_var, h.known]
          exact .ok rfl
        · rw [Term.subst, if_neg hy]
          apply sameVerdict_of_lookup
          simpa [Term.freeVars] using h.others y hy
      | _ => simp [Term.head] at hvar
    · obtain ⟨hhead, hwidth, hchildren⟩ := Term.subst_eq (not_exists.1 hvar x)
      refine SameMoves.verdict ?_ hwidth.symm
      intro types
      rw [hhead, hwidth, Head.move_congr (not_exists.1 hvar) env' env]
      cases hnext : t.head.move env t.children.length types with
      | error o => exact .error rfl
      | ok m =>
        cases m with
        | done U => exact .done rfl
        | enter bs =>
          refine .enter ?_
          intro c d hc hd
          obtain rfl := Option.some.inj ((hchildren _ c hc).symm.trans hd)
          rw [← Head.map_fst_of_enter hnext]
          split
          · rename_i hbs
            exact sameVerdict_of_lookup fun y _ => h.lookup_eq hbs y
          · rename_i hbs
            exact ih c (List.mem_of_getElem? hc) (h.extend hbs)

/-- A constant that stands for a term without free variables may be written out: the check comes to
the same type, or to an error of the same kind with the same types and names. Only the names in
scope may differ. -/
theorem check_const_inline {v : Term} {envV : Env} {T : Ty} (hclosed : v.freeVars = [])
    (hv : (v.typecheck envV).1 = .ok T) (n : Node) (x : String) (r : Term) (env : Env) :
    Agree Eq
      (fun e e' => e.cause.kind = e'.cause.kind ∧ e.cause.withoutScope = e'.cause.withoutScope)
      ((Term.const n x v r).typecheck env).1 ((r.subst x v).typecheck env).1 := by
  have hknows : (env.bind x T).Knows x T env := by
    constructor
    · simp [Env.lookup_bind]
    · intro y hy
      simp [Env.lookup_bind, hy]
  have hverdict := sameVerdict_subst r (Term.check_of_closed hclosed hv) hknows
  have hconst : (Term.const n x v r).check env = r.check (env.bind x T) := by
    rw [Term.check_const, Term.check_of_closed hclosed hv env]
    rfl
  change Agree _ _ ((Term.const n x v r).check env) _
  rw [hconst]
  exact hverdict.mono fun e e' he => ⟨he.kind, he⟩

/-- The rest has a constant and a parameter that hide the constant `f`, and the term of the inner
constant calls the outer one. -/
theorem check_const_inline_hidden :
    let node : Node := ⟨0, ⟨0, 1⟩⟩
    let v : Term := .func node (ParamDecl.ofParams [⟨"b", .boolean⟩]) (.var node "b")
    let rest : Term := .call node (.func node (ParamDecl.ofParams [⟨"f", .boolean⟩])
      (.var node "f")) [.var node "f"]
    let r : Term := .const node "f" (.call node (.var node "f") [.bool node true]) rest
    let env := Env.empty.bind "f" .number
    v.freeVars = [] ∧ (v.typecheck .empty).1 = .ok (.function [⟨"b", .boolean⟩] .boolean) ∧
      r.subst "f" v = .const node "f" (.call node v [.bool node true]) rest ∧
      Agree Eq
        (fun e e' => e.cause.kind = e'.cause.kind ∧ e.cause.withoutScope = e'.cause.withoutScope)
        ((Term.const node "f" v r).typecheck env).1 ((r.subst "f" v).typecheck env).1 := by
  intro node v rest r env
  have hclosed : v.freeVars = [] := by decide
  have hv : (v.typecheck .empty).1 = .ok (.function [⟨"b", .boolean⟩] .boolean) := by
    with_unfolding_all rfl
  exact ⟨hclosed, hv, rfl, check_const_inline hclosed hv node "f" r env⟩

end ArrowLang
