import ArrowLang.Proofs.FreeVariables
import ArrowLang.Proofs.Grammar.Replace

/-!
# Unknown names

A check comes to an unknown name at a variable, and the names in scope there are those that the
environment and the terms around the variable bind. If one of them is put in the place of the
unknown name, the new check goes on from that node, and whatever it comes to, it is no unknown name
at the same node (`Term.Edit.mends`).
-/

namespace ArrowLang

/-! ## Names in scope -/

namespace Env

theorem mem_names {env : Env} {x : String} : x ∈ env.names ↔ env.lookup x ≠ none := by
  rw [lookup, ne_eq, lookup_eq_none_iff_map_fst, not_not, names, List.mem_eraseDups, bindings]
  simp [(Ordered.sort_perm _ _).mem_iff]

theorem mem_names_extend {env : Env} {bs : List (String × Ty)} {x : String} :
    x ∈ (env.extend bs).names ↔ x ∈ bs.map Prod.fst ∨ x ∈ env.names := by
  rw [mem_names, mem_names, lookup_extend, ne_eq, Option.or_eq_none_iff,
    lookup_eq_none_iff_map_fst, List.map_reverse, List.mem_reverse]
  tauto

end Env

/-! ## Where a check fails -/

/-- Only a variable objects to a name. -/
theorem Head.eq_var_of_unknown {h : Head} {env : Env} {width : Nat} {types : List Ty}
    {o : Objection} {x : String} {inScope : List String}
    (hmove : h.move env width types = .error o) (ho : o.cause = .unknownVariable x inScope) :
    h = .var x ∧ inScope = env.names ∧ o.child = none := by
  cases h <;> simp only [move, Move.ofCall] at hmove <;> grind

namespace Term

variable {env : Env} {t u : Term} {e : TypeError} {types : List Ty} {x : String}
  {inScope : List String}

/-- A walk fails by a move or in a child that it enters. -/
theorem walk_error_cases {cs : List Term} (h : (t.walk env types cs).result = .error e) :
    (∃ types o, t.head.move env t.children.length types = .error o ∧
      e = ⟨o.cause, t.blame o.child⟩) ∨
    ∃ c ∈ cs, ∃ types bs, t.head.move env t.children.length types = .ok (.enter bs) ∧
      (c.infer (env.extend bs)).result = .error e := by
  induction cs generalizing types with
  | nil =>
    rw [walk, resume] at h
    split at h
    · cases h
    · cases h
    · rename_i o hmove
      cases h
      exact .inl ⟨types, o, hmove, rfl⟩
  | cons c cs ih =>
    rw [walk, resume] at h
    split at h
    · rename_i bs hmove
      cases hc : (c.infer (env.extend bs)).result with
      | error e' =>
        rw [Traced.bind_eq_of_error hc] at h
        cases h
        exact .inr ⟨c, by simp, types, bs, hmove, hc⟩
      | ok T =>
        rw [Traced.bind_eq_of_ok hc] at h
        obtain hself | ⟨b, hb, hchild⟩ := ih h
        · exact .inl hself
        · exact .inr ⟨b, by simp [hb], hchild⟩
    · cases h
    · rename_i o hmove
      cases h
      exact .inl ⟨types, o, hmove, rfl⟩

/-- An unknown name comes from the term itself, which is a variable, or from a child. -/
theorem unknown_cases (h : (t.infer env).result = .error e)
    (he : e.cause = .unknownVariable x inScope) :
    (e.term = t ∧ t.head = .var x ∧ inScope = env.names) ∨
    ∃ c ∈ t.children, ∃ types bs, t.head.move env t.children.length types = .ok (.enter bs) ∧
      (c.infer (env.extend bs)).result = .error e := by
  rw [infer_eq_walk, Traced.result_bind] at h
  refine (walk_error_cases h).imp_left ?_
  rintro ⟨types, o, hmove, rfl⟩
  obtain ⟨hhead, hscope, hchild⟩ := Head.eq_var_of_unknown hmove he
  exact ⟨by rw [hchild, blame], hhead, hscope⟩

/-- An unknown name is that of a variable in the term. -/
theorem within_of_unknown (h : (t.infer env).result = .error e)
    (he : e.cause = .unknownVariable x inScope) : e.term.Within t ∧ e.term.head = .var x := by
  induction t using children_induction generalizing env with
  | step t ih =>
    obtain ⟨hterm, hhead, -⟩ | ⟨c, hc, types, bs, -, hchild⟩ := unknown_cases h he
    · rw [hterm]
      exact ⟨.refl, hhead⟩
    · obtain ⟨hwithin, hhead⟩ := ih c hc hchild
      exact ⟨.child hc hwithin, hhead⟩

/-- The names in scope at an unknown one are bound by the environment or by a term around it. -/
theorem exists_binds_of_unknown {y : String} (h : (t.infer env).result = .error e)
    (he : e.cause = .unknownVariable x inScope) (hy : y ∈ inScope) :
    y ∈ env.names ∨ ∃ (n : Term) (i : Nat), n.Within t ∧ y ∈ n.head.binds i := by
  induction t using children_induction generalizing env with
  | step t ih =>
    obtain ⟨-, -, rfl⟩ | ⟨c, hc, types, bs, hmove, hchild⟩ := unknown_cases h he
    · exact .inl hy
    · obtain hnames | ⟨n, i, hn, hbinds⟩ := ih c hc hchild
      · rw [Env.mem_names_extend, Head.map_fst_of_enter hmove] at hnames
        exact hnames.elim (fun hbinds => .inr ⟨t, _, .refl, hbinds⟩) .inl
      · exact .inr ⟨n, i, .child hc hn, hbinds⟩

end Term

/-! ## Checks that go on -/

/-- The error is an unknown name at the node of the number `p`. -/
def TypeError.UnknownAt (p : Nat) (e : TypeError) : Prop :=
  e.term.id = p ∧ ∃ x inScope, e.cause = .unknownVariable x inScope

namespace Traced

variable {α β : Type} {p : Nat}

/-- The run comes to no unknown name at the node of the number `p`. -/
def Passes (p : Nat) (x : Traced α) : Prop := ∀ e, x.result = .error e → ¬ e.UnknownAt p

/-- The run `y` enters at least as many nodes as `x` and gets past the node of the number `p`. -/
structure Mends (p : Nat) (x y : Traced α) : Prop where
  visits : x.visits.length ≤ y.visits.length
  passes : y.Passes p

theorem Passes.bind {x : Traced α} {f : α → Traced β} (h : x.Passes p)
    (hf : ∀ a, (f a).Passes p) : (x >>= f).Passes p := by
  intro e he
  cases hx : x.result with
  | error e' =>
    rw [bind_eq_of_error hx] at he
    cases he
    exact h e hx
  | ok a =>
    rw [bind_eq_of_ok hx] at he
    exact hf a e he

theorem Mends.enter {x y : Traced α} (h : Mends p x y) (env : Env) (t u : Term) :
    Mends p (do enter env t; x) (do enter env u; y) := by
  rw [bind_eq_of_ok (a := ()) rfl, bind_eq_of_ok (a := ()) rfl]
  exact ⟨Nat.succ_le_succ h.visits, h.passes⟩

/-- After the same beginning. -/
theorem Mends.bind_right {x : Traced α} {a : α} (hx : x.result = .ok a) {f g : α → Traced β}
    (h : Mends p (f a) (g a)) : Mends p (x >>= f) (x >>= g) := by
  rw [bind_eq_of_ok hx, bind_eq_of_ok hx]
  exact ⟨by simpa using h.visits, h.passes⟩

/-- Where the first run stops. -/
theorem Mends.bind_left {x y : Traced α} {e : TypeError} (hx : x.result = .error e)
    {f g : α → Traced β} (h : Mends p x y) (hg : ∀ a, (g a).Passes p) :
    Mends p (x >>= f) (y >>= g) := by
  refine ⟨?_, h.passes.bind hg⟩
  rw [bind_eq_of_error hx]
  cases hy : y.result with
  | error e' =>
    rw [bind_eq_of_error hy]
    exact h.visits
  | ok a =>
    rw [bind_eq_of_ok hy, List.length_append]
    exact Nat.le_add_right_of_le h.visits

end Traced

namespace Term

variable {env : Env} {t u : Term} {e : TypeError} {types : List Ty} {x y : String}
  {inScope : List String} {p : Nat}

/-- A check gets past a node that is not in the term. -/
theorem passes_of_not_mem (env : Env) (h : p ∉ t.ids) : (t.infer env).Passes p := by
  rintro e he ⟨rfl, x, inScope, hcause⟩
  exact h (within_of_unknown he hcause).1.id_mem_ids

theorem walk_passes {cs : List Term} (hhead : ∀ x, t.head ≠ .var x) (env : Env) (types : List Ty)
    (hcs : ∀ c ∈ cs, p ∉ c.ids) : (t.walk env types cs).Passes p := by
  rintro e he ⟨hp, x, inScope, hcause⟩
  obtain ⟨types, o, hmove, rfl⟩ | ⟨c, hc, types, bs, -, hchild⟩ := walk_error_cases he
  · exact hhead x (Head.eq_var_of_unknown hmove hcause).1
  · exact passes_of_not_mem _ (hcs c hc) e hchild ⟨hp, x, inScope, hcause⟩

/-- A walk that fails with an unknown name goes on to the next child first. -/
theorem exists_enter_of_walk {c : Term} {cs : List Term} (hvar : ∀ x, t.head ≠ .var x)
    (h : (t.walk env types (c :: cs)).result = .error e) (he : e.UnknownAt p) :
    ∃ bs, t.head.move env t.children.length types = .ok (.enter bs) := by
  cases hmove : t.head.move env t.children.length types with
  | error o =>
    rw [walk_of_error hmove] at h
    cases h
    obtain ⟨-, x, inScope, hcause⟩ := he
    exact absurd (Head.eq_var_of_unknown hmove hcause).1 (hvar x)
  | ok m =>
    cases m with
    | done T =>
      rw [walk_of_done hmove] at h
      cases h
    | enter bs => exact ⟨bs, rfl⟩

/-- Two walks over the same children but for one, which is mended. -/
theorem walk_mends {c d : Term} {l r : List Term} (hhead : t.head = u.head)
    (hlength : t.children.length = u.children.length) (hvar : ∀ x, t.head ≠ .var x)
    (hrest : ∀ b ∈ l ++ r, p ∉ b.ids)
    (hcd : ∀ env, (c.infer env).result = .error e → (c.infer env).Mends p (d.infer env))
    (h : (t.walk env types (l ++ c :: r)).result = .error e) (he : e.UnknownAt p) :
    (t.walk env types (l ++ c :: r)).Mends p (u.walk env types (l ++ d :: r)) := by
  induction l generalizing types with
  | nil =>
    obtain ⟨bs, hmove⟩ := exists_enter_of_walk hvar h he
    rw [List.nil_append, walk_of_enter hmove] at h ⊢
    rw [List.nil_append, walk_of_enter (by rw [← hhead, ← hlength, hmove])]
    cases hc : (c.infer (env.extend bs)).result with
    | error e' =>
      rw [Traced.bind_eq_of_error hc] at h
      cases h
      exact (hcd _ hc).bind_left hc fun T => walk_passes (hhead ▸ hvar) env _ hrest
    | ok T =>
      -- the name would be unknown to a later child
      rw [Traced.bind_eq_of_ok hc] at h
      exact absurd he (walk_passes hvar env _ hrest e h)
  | cons b l ih =>
    obtain ⟨bs, hmove⟩ := exists_enter_of_walk hvar h he
    rw [List.cons_append, walk_of_enter hmove] at h ⊢
    rw [List.cons_append, walk_of_enter (by rw [← hhead, ← hlength, hmove])]
    cases hb : (b.infer (env.extend bs)).result with
    | error e' =>
      rw [Traced.bind_eq_of_error hb] at h
      cases h
      exact absurd he (passes_of_not_mem _ (hrest b (by simp)) e hb)
    | ok T =>
      rw [Traced.bind_eq_of_ok hb] at h
      exact .bind_right hb (ih (fun b hb => hrest b (by simp_all)) h)

theorem head_ne_var_of_mem {c : Term} (h : c ∈ t.children) (x : String) : t.head ≠ .var x := by
  cases t <;> simp_all [head, children]

/-- A variable with a name in scope has a type. -/
theorem result_infer_var {n : Node} (h : y ∈ env.names) :
    ∃ T, ((var n y).infer env).result = .ok T := by
  obtain ⟨T, hT⟩ := Option.ne_none_iff_exists'.1 (Env.mem_names.1 h)
  exact ⟨T, by rw [infer, hT]; rfl⟩

theorem length_visits_infer_var (n : Node) (x : String) (env : Env) :
    ((var n x).infer env).visits.length = 1 := by
  rw [infer]
  cases env.lookup x <;> rfl

/-- With a name in scope for the unknown one, a check goes on from there. -/
theorem Edit.mends (h : t.Edit p y u) (ht : t.ids.Nodup) (herror : (t.infer env).result = .error e)
    (he : e.cause = .unknownVariable x inScope) (hp : e.term.id = p) (hy : y ∈ inScope) :
    (t.infer env).Mends p (u.infer env) := by
  induction h generalizing env with
  | @var n m z hn hm =>
    obtain ⟨-, -, rfl⟩ | ⟨c, hc, -⟩ := unknown_cases herror he
    · obtain ⟨T, hT⟩ := result_infer_var (n := m) hy
      refine ⟨?_, fun e' he' => ?_⟩
      · rw [length_visits_infer_var, length_visits_infer_var]
      · rw [hT] at he'
        cases he'
    · cases hc
  | @child t u c d l r hid hhead htc huc hedit ih =>
    obtain ⟨hc, -, hrest⟩ := nodup_ids_child ht htc hedit.mem_ids
    have hlength : t.children.length = u.children.length := by simp [htc, huc]
    have hvar := head_ne_var_of_mem (t := t) (c := c) (by simp [htc])
    rw [infer_eq_walk, htc] at herror ⊢
    rw [infer_eq_walk, huc]
    rw [Traced.result_bind] at herror
    refine .enter (walk_mends hhead hlength hvar hrest ?_ herror ⟨hp, x, inScope, he⟩) env t u
    intro env' hchild
    exact ih hc hchild

end Term

end ArrowLang
