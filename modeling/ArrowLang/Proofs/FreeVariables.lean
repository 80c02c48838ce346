import ArrowLang.Proofs.Checking.TwoRuns
import ArrowLang.Proofs.FirstError

/-!
# Free variables

A variable is free in a term if no function or constant of the term binds it. The free variables are
all that a check reads from its environment: where two environments agree on them, both checks come
to the same, and a name is unknown to a check only if it is free in the term and has no binding.
-/

namespace ArrowLang

/-! ## Free variables, form by form -/

mutual

/-- The free variables of a term. Parameters are bound in the body of their function, and a constant
in the rest after it but not in its own term. -/
def Term.freeVars : Term → List String
  | .bool .. | .number .. => []
  | .var _ x => [x]
  | .add _ l r => l.freeVars ++ r.freeVars
  | .cond _ c y n => c.freeVars ++ y.freeVars ++ n.freeVars
  | .func _ ps b => b.freeVars.removeAll (ps.map ParamDecl.name)
  | .call _ f as => f.freeVars ++ Term.freeVarsAll as
  | .seq _ b r => b.freeVars ++ r.freeVars
  | .const _ x i r => i.freeVars ++ r.freeVars.removeAll [x]

def Term.freeVarsAll : List Term → List String
  | [] => []
  | t :: ts => t.freeVars ++ Term.freeVarsAll ts

end

/-- The names that a term binds in its child at index `i`. -/
def Head.binds : Head → Nat → List String
  | .func ps, _ => ps.map Param.name
  | .const x, 1 => [x]
  | _, _ => []

theorem ParamDecl.map_name_toParams (ps : List ParamDecl) :
    (ParamDecl.toParams ps).map Param.name = ps.map ParamDecl.name := by
  induction ps with
  | nil => rfl
  | cons p ps ih =>
    obtain ⟨x, type, span⟩ := p
    rw [ParamDecl.toParams, List.map_cons, List.map_cons, ih]

theorem exists_getElem?_cons {α : Type} {a : α} {l : List α} {P : Nat → α → Prop} :
    (∃ i b, (a :: l)[i]? = some b ∧ P i b) ↔ P 0 a ∨ ∃ i b, l[i]? = some b ∧ P (i + 1) b := by
  constructor
  · intro h
    obtain ⟨i, b, hb, hP⟩ := h
    cases i with
    | zero =>
      obtain rfl : a = b := by simpa using hb
      exact .inl hP
    | succ i => exact .inr ⟨i, b, by simpa using hb, hP⟩
  · intro h
    rcases h with hP | ⟨i, b, hb, hP⟩
    · exact ⟨0, a, rfl, hP⟩
    · exact ⟨i + 1, b, by simpa using hb, hP⟩

theorem Term.mem_freeVarsAll {x : String} {ts : List Term} :
    x ∈ Term.freeVarsAll ts ↔ ∃ (i : Nat) (t : Term), ts[i]? = some t ∧ x ∈ t.freeVars := by
  induction ts with
  | nil => simp [freeVarsAll]
  | cons t ts ih => rw [freeVarsAll, List.mem_append, ih, exists_getElem?_cons]

/-- A variable is free in itself and in every term right above that does not bind it. -/
theorem Term.mem_freeVars {x : String} {t : Term} :
    x ∈ t.freeVars ↔ t.head = .var x ∨
      ∃ (i : Nat) (c : Term), t.children[i]? = some c ∧ x ∉ t.head.binds i ∧ x ∈ c.freeVars := by
  cases t with
  | bool n v | number n v => simp [freeVars, head, children]
  | var n y => simp [freeVars, head, children, eq_comm]
  | add n l r => simp [freeVars, head, children, exists_getElem?_cons, Head.binds]
  | cond n c y e => simp [freeVars, head, children, exists_getElem?_cons, Head.binds]
  | func n ps b =>
    simp [freeVars, head, children, exists_getElem?_cons, Head.binds, List.removeAll,
      ParamDecl.map_name_toParams, and_comm]
  | call n f as =>
    simp [freeVars, head, children, exists_getElem?_cons, Head.binds, mem_freeVarsAll]
  | seq n b r => simp [freeVars, head, children, exists_getElem?_cons, Head.binds]
  | const n y i r =>
    simp only [children, head, exists_getElem?_cons]
    simp [freeVars, Head.binds, List.removeAll, and_comm]

/-! ## What a move binds -/

theorem Move.eq_nil_of_ofCall {found : Nat} {callee : Ty} {types : List Ty}
    {bs : List (String × Ty)} (h : Move.ofCall found callee types = .ok (.enter bs)) : bs = [] := by
  unfold Move.ofCall at h
  grind

namespace Head

variable {h : Head} {env : Env} {width : Nat} {types : List Ty} {bs : List (String × Ty)}

/-- A move into a child binds what the term binds there. -/
theorem map_fst_of_enter (hmove : h.move env width types = .ok (.enter bs)) :
    bs.map Prod.fst = h.binds types.length := by
  cases h with
  | func ps =>
    cases types with
    | nil =>
      obtain rfl : Param.bindings ps = bs := by simpa [move] using hmove
      simp [Param.bindings, binds]
    | cons => simp [move] at hmove
  | call =>
    cases types with
    | nil =>
      obtain rfl : [] = bs := by simpa [move] using hmove
      rfl
    | cons callee types =>
      rw [Move.eq_nil_of_ofCall hmove]
      rfl
  | const x =>
    rcases types with _ | ⟨init, _ | ⟨rest, types⟩⟩
    · obtain rfl : [] = bs := by simpa [move] using hmove
      rfl
    · obtain rfl : [(x, init)] = bs := by simpa [move] using hmove
      rfl
    · simp [move] at hmove
  | bool | number | var | add | cond | seq =>
    obtain rfl : bs = [] := by
      simp only [move] at hmove
      grind
    rfl

/-- Only a variable looks at the environment. -/
theorem move_congr (hh : ∀ x, h ≠ .var x) (env env' : Env) (width : Nat) (types : List Ty) :
    h.move env width types = h.move env' width types := by
  cases h with
  | var x => exact absurd rfl (hh x)
  | _ => rfl

end Head

/-! ## Agreement on the free variables -/

theorem lookup_eq_none_iff_map_fst {x : String} {bs : List (String × Ty)} :
    bs.lookup x = none ↔ x ∉ bs.map Prod.fst := by
  rw [List.lookup_eq_none_iff]
  grind

/-- The same cause, whatever names are in scope. -/
def TypeError.Cause.withoutScope : Cause → Cause
  | .unknownVariable x _ => .unknownVariable x []
  | c => c

/-- The same error, whatever names are in scope. -/
structure TypeError.SameButScope (e e' : TypeError) : Prop where
  cause : e.cause.withoutScope = e'.cause.withoutScope
  term : e.term = e'.term

/-- Environments that agree on the free variables of a term do so on those of its children, under
the same new bindings. -/
theorem lookup_extend_eq {t c : Term} {env env' : Env} {i : Nat} {bs : List (String × Ty)}
    (hagree : ∀ x ∈ t.freeVars, env.lookup x = env'.lookup x) (hc : t.children[i]? = some c)
    (hbs : bs.map Prod.fst = t.head.binds i) {x : String} (hx : x ∈ c.freeVars) :
    (env.extend bs).lookup x = (env'.extend bs).lookup x := by
  rw [Env.lookup_extend, Env.lookup_extend]
  cases hlookup : bs.reverse.lookup x with
  | some T => rfl
  | none =>
    rw [lookup_eq_none_iff_map_fst, List.map_reverse, List.mem_reverse, hbs] at hlookup
    exact hagree x (Term.mem_freeVars.2 (.inr ⟨i, c, hc, hlookup, hx⟩))

/-- Environments that agree on the free variables of a term lead to the same moves. -/
theorem simulation_freeVars : Simulation Eq TypeError.SameButScope fun env t env' t' =>
    t = t' ∧ ∀ x ∈ t.freeVars, env.lookup x = env'.lookup x where
  default := rfl
  width := by
    intro env t env' t' hS
    rw [hS.1]
  move := by
    intro env t env' t' types types' hS htypes
    obtain ⟨rfl, hagree⟩ := hS
    obtain rfl : types = types' := by rwa [List.forall₂_eq_eq_eq] at htypes
    by_cases hvar : ∃ x, t.head = .var x
    · obtain ⟨x, hx⟩ := hvar
      have hlookup := hagree x (Term.mem_freeVars.2 (.inl hx))
      rw [hx, Head.move, Head.move, hlookup]
      cases env'.lookup x with
      | none => exact .error ⟨rfl, rfl⟩
      | some T => exact .done rfl
    · rw [Head.move_congr (not_exists.1 hvar) env env']
      cases hnext : t.head.move env' t.children.length types with
      | error o => exact .error ⟨rfl, rfl⟩
      | ok m =>
        cases m with
        | done T => exact .done rfl
        | enter bs =>
          refine .enter fun c c' hc hc' => ?_
          obtain rfl := Option.some.inj (hc.symm.trans hc')
          exact ⟨rfl, fun x hx => lookup_extend_eq hagree hc (Head.map_fst_of_enter hnext) hx⟩

/-! ## Unknown names -/

theorem lookup_extend_eq_none {env : Env} {bs : List (String × Ty)} {x : String} :
    (env.extend bs).lookup x = none ↔ x ∉ bs.map Prod.fst ∧ env.lookup x = none := by
  rw [Env.lookup_extend, Option.or_eq_none_iff, lookup_eq_none_iff_map_fst, List.map_reverse,
    List.mem_reverse]

/-- A name is unbound in a child if it is unbound around and the term does not bind it there. -/
theorem Term.lookup_childEnv {t : Term} {env env' : Env} {i : Nat}
    (h : t.childEnv env i = some env') (x : String) :
    env'.lookup x = none ↔ x ∉ t.head.binds i ∧ env.lookup x = none := by
  cases t with
  | func n ps b =>
    obtain rfl := Option.some.inj h
    rw [lookup_extend_eq_none, Param.bindings, List.map_map]
    rfl
  | const n y c r =>
    by_cases hi : i = 1
    · subst hi
      obtain ⟨T, -, rfl⟩ := Option.map_eq_some_iff.1 h
      exact lookup_extend_eq_none
    · obtain rfl : env = env' := by simpa [childEnv, hi] using h
      simp [head, Head.binds, hi]
  | bool | number | var | add | cond | call | seq =>
    obtain rfl := Option.some.inj h
    simp [head, Head.binds]

/-- Where a term has a type, so has each child. -/
theorem Term.exists_check_child {t c : Term} {env : Env} {T : Ty} {i : Nat}
    (h : t.check env = .ok T) (hc : t.children[i]? = some c) :
    ∃ env' U, t.childEnv env i = some env' ∧ c.check env' = .ok U := by
  have hchild : ∀ (j : Nat) (d : Term) (env' : Env), t.children[j]? = some d →
      t.childEnv env j = some env' → ∃ U, d.check env' = .ok U := by
    intro j d env' hd henv
    cases hcheck : d.check env' with
    | ok U => exact ⟨U, rfl⟩
    | error e => exact absurd (.child hd henv hcheck) (not_fault_of_check h)
  obtain ⟨env', henv⟩ : ∃ env', t.childEnv env i = some env' := by
    cases t with
    | const n y d r =>
      by_cases hi : i = 1
      · subst hi
        obtain ⟨U, hU⟩ := hchild 0 d env rfl rfl
        exact ⟨env.bind y U, by rw [childEnv, hU]; rfl⟩
      · exact ⟨env, by simp [childEnv, hi]⟩
    | _ => exact ⟨_, rfl⟩
  obtain ⟨U, hU⟩ := hchild i c env' hc henv
  exact ⟨env', U, henv, hU⟩

/-- Where a check comes to a type, the environment binds every free variable. -/
theorem Term.isSome_lookup_of_check {t : Term} {env : Env} {T : Ty} (h : t.check env = .ok T)
    {x : String} (hx : x ∈ t.freeVars) : (env.lookup x).isSome := by
  induction t using children_induction generalizing env T with
  | step t ih =>
    rw [Option.isSome_iff_ne_none]
    intro hnone
    rcases mem_freeVars.1 hx with hhead | ⟨i, c, hc, hbinds, hfree⟩
    · cases t with
      | var n y =>
        obtain rfl := Head.var.inj hhead
        rw [check_var, hnone] at h
        cases h
      | _ => cases hhead
    · obtain ⟨env', U, henv, hU⟩ := exists_check_child h hc
      have hsome := ih c (List.mem_of_getElem? hc) hU hfree
      rw [(lookup_childEnv henv x).2 ⟨hbinds, hnone⟩] at hsome
      cases hsome

/-- A name that is unknown at some place of a term is free in the term and has no binding. -/
theorem Located.mem_freeVars {env L : Env} {t s : Term} {path : List Nat}
    (h : Located env t path L s) {x : String} (hx : x ∈ s.freeVars) (hL : L.lookup x = none) :
    x ∈ t.freeVars ∧ env.lookup x = none := by
  induction h with
  | here => exact ⟨hx, hL⟩
  | child hc henv _ ih =>
    obtain ⟨hfree, hnone⟩ := ih hx hL
    obtain ⟨hbinds, hlookup⟩ := (Term.lookup_childEnv henv x).1 hnone
    exact ⟨Term.mem_freeVars.2 (.inr ⟨_, _, hc, hbinds, hfree⟩), hlookup⟩

theorem Term.mem_freeVars_of_check {t : Term} {env : Env} {x : String} {names : List String}
    {s : Term} (h : t.check env = .error ⟨.unknownVariable x names, s⟩) :
    x ∈ t.freeVars ∧ env.lookup x = none := by
  obtain ⟨path, k, hfirst⟩ := exists_firstViolation h
  obtain ⟨L, s', hloc, hviolation⟩ := hfirst.violated
  cases hviolation with
  | unknownVariable hnone => exact hloc.mem_freeVars (by simp [freeVars]) hnone

/-- The free variables are all that a check reads from its environment. Environments that agree on
them give the same type or the same error, whatever names are in scope there, and every checker
enters equally many nodes. A term that has a type has all its free variables bound, and a name that
is reported as unknown is free and unbound, so this never happens to a term without free
variables. -/
theorem check_reads_free_variables (t : Term) (c : Checker) (env : Env) :
    (∀ env', (∀ x ∈ t.freeVars, env.lookup x = env'.lookup x) →
      Agree Eq TypeError.SameButScope (c.check env t).1 (c.check env' t).1 ∧
        (c.check env t).2 = (c.check env' t).2) ∧
    (∀ T, (c.check env t).1 = .ok T → ∀ x ∈ t.freeVars, (env.lookup x).isSome) ∧
    (∀ x names s, (c.check env t).1 = .error ⟨.unknownVariable x names, s⟩ →
      x ∈ t.freeVars ∧ env.lookup x = none) ∧
    (t.freeVars = [] →
      ∀ x names s, (c.check env t).1 ≠ .error ⟨.unknownVariable x names, s⟩) := by
  refine ⟨?_, ?_, ?_, ?_⟩
  · intro env' hagree
    have hrun := simulation_freeVars.infer ⟨rfl, hagree⟩
    refine ⟨hrun.result, ?_⟩
    rw [Checker.check_eq, Checker.check_eq, hrun.visits]
  · intro T hT x hx
    exact Term.isSome_lookup_of_check hT hx
  · intro x names s herror
    exact Term.mem_freeVars_of_check herror
  · intro hclosed x names s herror
    have hx := (Term.mem_freeVars_of_check herror).1
    rw [hclosed] at hx
    cases hx

/-- A constant `x` that is hidden by a parameter, over frames of two kinds. The outer `x` is not
free, so its type does not matter. -/
theorem check_reads_free_variables_hidden :
    let t : Term := .const ⟨5, ⟨0, 9⟩⟩ "x" (.var ⟨0, ⟨1, 2⟩⟩ "y")
      (.func ⟨4, ⟨3, 8⟩⟩ (ParamDecl.ofParams [⟨"x", .number⟩])
        (.add ⟨3, ⟨4, 7⟩⟩ (.var ⟨1, ⟨4, 5⟩⟩ "x") (.var ⟨2, ⟨6, 7⟩⟩ "z")))
    let env := (Env.empty.bind "y" .boolean).bind "z" .boolean
    let env' := Env.empty.extend [("x", .number), ("z", .boolean), ("y", .boolean)]
    t.freeVars = ["y", "z"] ∧ env.depth ≠ env'.depth ∧
      Agree Eq TypeError.SameButScope (Checker.new.check env t).1 (Checker.new.check env' t).1 ∧
      (Checker.new.check env t).2 = (Checker.new.check env' t).2 := by
  intro t env env'
  have hfree : t.freeVars = ["y", "z"] := rfl
  have hagree : ∀ x ∈ t.freeVars, env.lookup x = env'.lookup x := by
    intro x hx
    rw [hfree, List.mem_cons, List.mem_singleton] at hx
    rcases hx with rfl | rfl <;> rfl
  exact ⟨hfree, by decide, (check_reads_free_variables t .new env).1 env' hagree⟩

end ArrowLang
