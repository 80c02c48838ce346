import ArrowLang.Proofs.Checking.TwoRuns
import ArrowLang.Proofs.TypeEquality

/-!
# Names of parameters inside types

A check keeps the names that function types give to their parameters and never looks at them. Two
environments that differ in nothing else, and two terms that do so, are checked alike: the types are
the same up to such names, and so are the errors, at nodes of the same number.
-/

namespace ArrowLang

/-! ## What differs in names alone -/

/-- The same name, bound to types that differ at most in names of parameters. -/
def SameBinding (b b' : String × Ty) : Prop := b.1 = b'.1 ∧ b.2.same b'.2 = true

/-- Environments built by the same extensions up to names of parameters. -/
inductive Env.Like : Env → Env → Prop where
  | empty : Like .empty .empty
  | extend {env env' bs bs'} : Like env env' → List.Forall₂ SameBinding bs bs' →
      Like (env.extend bs) (env'.extend bs')

/-- The head with the name `x` for each parameter inside the types of its annotations. A function's
own parameters keep their names. -/
def Head.renamed (x : String) : Head → Head
  | .func ps => .func (ps.map fun p => ⟨p.name, p.type.renamed x⟩)
  | h => h

/-- The same cause up to names of parameters in types. A parameter that an argument does not fit is
named by a type too. -/
inductive TypeError.Cause.Like : Cause → Cause → Prop where
  | unknownVariable {x names} : Like (.unknownVariable x names) (.unknownVariable x names)
  | booleanExpected {T T'} : T.same T' = true → Like (.booleanExpected T) (.booleanExpected T')
  | numberExpected {T T'} : T.same T' = true → Like (.numberExpected T) (.numberExpected T')
  | branchMismatch {T T' U U'} : T.same T' = true → U.same U' = true →
      Like (.branchMismatch T U) (.branchMismatch T' U')
  | notAFunction {T T'} : T.same T' = true → Like (.notAFunction T) (.notAFunction T')
  | arityMismatch {m n T T'} : T.same T' = true →
      Like (.arityMismatch m n T) (.arityMismatch m n T')
  | paramMismatch {i x x' T T' U U'} : T.same T' = true → U.same U' = true →
      Like (.paramMismatch i x T U) (.paramMismatch i x' T' U')

/-- The same error up to names of parameters in types, at nodes of the same number. -/
structure TypeError.Like (e e' : TypeError) : Prop where
  cause : e.cause.Like e'.cause
  term : e.term.id = e'.term.id

/-! ## Environments -/

theorem lookup_sameBinding {bs bs' : List (String × Ty)} (h : List.Forall₂ SameBinding bs bs')
    (x : String) : Option.Rel (fun T U => T.same U = true) (bs.lookup x) (bs'.lookup x) := by
  induction h with
  | nil => exact .none
  | @cons b b' bs bs' hb _ ih =>
    obtain ⟨y, T⟩ := b
    obtain ⟨y', T'⟩ := b'
    obtain ⟨hy, hT⟩ : y = y' ∧ T.same T' = true := hb
    subst hy
    rw [List.lookup_cons, List.lookup_cons]
    cases x == y with
    | true => exact .some hT
    | false => exact ih

theorem rel_or {α β : Type} {R : α → β → Prop} {a b : Option α} {a' b' : Option β}
    (h : Option.Rel R a a') (g : Option.Rel R b b') : Option.Rel R (a.or b) (a'.or b') := by
  cases h with
  | none => exact g
  | some hab => exact .some hab

theorem map_fst_sameBinding {bs bs' : List (String × Ty)} (h : List.Forall₂ SameBinding bs bs') :
    bs.map Prod.fst = bs'.map Prod.fst := by
  induction h with
  | nil => rfl
  | cons hb _ ih => rw [List.map_cons, List.map_cons, hb.1, ih]

namespace Env.Like

variable {env env' : Env}

theorem lookup (h : Env.Like env env') (x : String) :
    Option.Rel (fun T U => T.same U = true) (env.lookup x) (env'.lookup x) := by
  induction h with
  | empty => exact .none
  | extend _ hbs ih =>
    rw [lookup_extend, lookup_extend]
    exact rel_or (lookup_sameBinding (List.rel_reverse hbs) x) ih

theorem map_frames (h : Env.Like env env') :
    env.frames.map (List.map Prod.fst) = env'.frames.map (List.map Prod.fst) := by
  induction h with
  | empty => rfl
  | @extend env env' bs bs' _ hbs ih =>
    cases hbs with
    | nil => exact ih
    | @cons b b' bs bs' hb hbs =>
      have hnames := map_fst_sameBinding (List.rel_reverse (.cons hb hbs))
      simp only [Env.extend, List.isEmpty_cons, Bool.false_eq_true, if_false, List.map_cons, ih]
      rw [hnames]

theorem names_eq (h : Env.Like env env') : env.names = env'.names := by
  have hnames : ∀ env : Env, env.names =
      ((env.frames.map (List.map Prod.fst)).flatMap (Ordered.sort (· ≤ ·))).eraseDups := by
    intro env
    rw [List.flatMap_map, Env.names]
  rw [hnames, hnames, h.map_frames]

end Env.Like

/-! ## Moves -/

/-- Moves that differ in names of parameters alone. -/
inductive Move.Like : Except Objection Move → Except Objection Move → Prop where
  | enter {bs bs'} : List.Forall₂ SameBinding bs bs' → Like (.ok (.enter bs)) (.ok (.enter bs'))
  | done {T T'} : T.same T' = true → Like (.ok (.done T)) (.ok (.done T'))
  | error {c c' i} : TypeError.Cause.Like c c' → Like (.error ⟨c, i⟩) (.error ⟨c', i⟩)

theorem Ty.same_congr {a a' b b' : Ty} (ha : a.same a' = true) (hb : b.same b' = true) :
    a.same b = a'.same b' := by
  rw [Bool.eq_iff_iff, same_iff_renamed_eq "", same_iff_renamed_eq "",
    (same_iff_renamed_eq "" a a').1 ha, (same_iff_renamed_eq "" b b').1 hb]

theorem Param.sameTypes_iff_forall₂ {ps qs : List Param} :
    sameTypes ps qs = true ↔ List.Forall₂ (fun p q => p.type.same q.type = true) ps qs := by
  induction ps generalizing qs with
  | nil => cases qs <;> simp [sameTypes]
  | cons p ps ih =>
    obtain ⟨x, T⟩ := p
    cases qs with
    | nil => simp [sameTypes]
    | cons q qs =>
      obtain ⟨y, U⟩ := q
      simp [sameTypes, ih]

theorem forall₂_getLast? {α β : Type} {R : α → β → Prop} {l : List α} {l' : List β}
    (h : List.Forall₂ R l l') : Option.Rel R l.getLast? l'.getLast? := by
  rw [← List.head?_reverse, ← List.head?_reverse]
  have hreverse := List.rel_reverse h
  generalize l.reverse = r at hreverse ⊢
  generalize l'.reverse = r' at hreverse ⊢
  cases hreverse with
  | nil => exact .none
  | cons hab => exact .some hab

theorem forall₂_zip_mk {α β γ δ : Type} {R : α → β → Prop} {S : γ → δ → Prop} {l : List α}
    {l' : List β} {m : List γ} {m' : List δ} (h : List.Forall₂ R l l') (g : List.Forall₂ S m m') :
    List.Forall₂ (fun x y => R x.1 y.1 ∧ S x.2 y.2) (l.zip m) (l'.zip m') := by
  induction h generalizing m m' with
  | nil => exact .nil
  | cons hab _ ih =>
    cases g with
    | nil => exact .nil
    | cons hcd g => exact .cons ⟨hab, hcd⟩ (ih g)

namespace Move.Like

theorem ite {p p' : Prop} [Decidable p] [Decidable p'] (hp : p ↔ p')
    {m m' n n' : Except Objection Move} (hm : Move.Like m m') (hn : Move.Like n n') :
    Move.Like (if p then m else n) (if p' then m' else n') := by
  simp only [hp]
  split
  · exact hm
  · exact hn

theorem ofCall {found : Nat} {callee callee' : Ty} {types types' : List Ty}
    (hcallee : callee.same callee' = true)
    (htypes : List.Forall₂ (fun T U => T.same U = true) types types') :
    Move.Like (Move.ofCall found callee types) (Move.ofCall found callee' types') := by
  cases callee' with
  | boolean =>
    obtain rfl := Ty.same_boolean.1 hcallee
    exact .error (.notAFunction hcallee)
  | number =>
    obtain rfl := Ty.same_number.1 hcallee
    exact .error (.notAFunction hcallee)
  | function qs U =>
    obtain ⟨ps, T, rfl, hparams, hresult⟩ := Ty.same_function.1 hcallee
    have hps := Param.sameTypes_iff_forall₂.1 hparams
    have hlen := hps.length_eq
    have honward : Move.Like
        (if types.length = ps.length then .ok (.done T) else .ok (.enter []))
        (if types'.length = qs.length then .ok (.done U) else .ok (.enter [])) :=
      .ite (by rw [htypes.length_eq, hlen]) (.done hresult) (.enter .nil)
    refine .ite (by rw [hlen]) ?_ (hlen ▸ .error (.arityMismatch hcallee))
    have hlast := forall₂_getLast? (forall₂_zip_mk hps htypes)
    generalize (ps.zip types).getLast? = last at hlast ⊢
    generalize (qs.zip types').getLast? = last' at hlast ⊢
    cases hlast with
    | none => exact honward
    | some hpq =>
      refine .ite (by rw [Ty.same_congr hpq.2 hpq.1]) honward ?_
      rw [htypes.length_eq]
      exact .error (.paramMismatch hpq.1 hpq.2)

end Move.Like

namespace Head

variable {x : String} {g h : Head}

theorem eq_of_renamed (hgh : g.renamed x = h.renamed x) (hg : ∀ ps, g ≠ .func ps) : h = g := by
  cases g <;> cases h <;> simp_all [renamed]

theorem exists_func_of_renamed {ps : List Param}
    (hgh : (func ps).renamed x = h.renamed x) :
    ∃ qs, h = .func qs ∧
      List.Forall₂ (fun p q => p.name = q.name ∧ p.type.same q.type = true) ps qs := by
  cases h with
  | func qs =>
    have hmap : List.Forall₂ Eq (ps.map fun p => (⟨p.name, p.type.renamed x⟩ : Param))
        (qs.map fun p => ⟨p.name, p.type.renamed x⟩) := by
      rw [List.forall₂_eq_eq_eq]
      exact func.inj hgh
    rw [List.forall₂_map_left_iff, List.forall₂_map_right_iff] at hmap
    refine ⟨qs, rfl, hmap.imp fun p q hpq => ?_⟩
    obtain ⟨hname, htype⟩ := Param.mk.inj hpq
    exact ⟨hname, (Ty.same_iff_renamed_eq x _ _).2 htype⟩
  | _ => simp [renamed] at hgh

/-- A head that writes no types. -/
theorem move_like_self (hh : ∀ ps, h ≠ .func ps) {env env' : Env} (henv : Env.Like env env')
    {types types' : List Ty} (htypes : List.Forall₂ (fun T U => T.same U = true) types types')
    (width : Nat) : Move.Like (h.move env width types) (h.move env' width types') := by
  cases h with
  | func ps => exact absurd rfl (hh ps)
  | bool | number => exact .done rfl
  | var y =>
    have hlookup := henv.lookup y
    rw [move, move]
    generalize env.lookup y = o at hlookup
    generalize env'.lookup y = o' at hlookup
    cases hlookup with
    | none => exact henv.names_eq ▸ .error .unknownVariable
    | some hT => exact .done hT
  | add =>
    cases htypes with
    | nil => exact .enter .nil
    | cons hl htypes =>
      cases htypes with
      | nil =>
        have htest := Ty.same_congr hl (Ty.same_refl .number)
        exact .ite (by rw [htest]) (.enter .nil) (.error (.numberExpected hl))
      | cons hr =>
        have htest := Ty.same_congr hr (Ty.same_refl .number)
        exact .ite (by rw [htest]) (.done rfl) (.error (.numberExpected hr))
  | cond =>
    cases htypes with
    | nil => exact .enter .nil
    | cons hc htypes =>
      cases htypes with
      | nil =>
        have htest := Ty.same_congr hc (Ty.same_refl .boolean)
        exact .ite (by rw [htest]) (.enter .nil) (.error (.booleanExpected hc))
      | cons hy htypes =>
        cases htypes with
        | nil => exact .enter .nil
        | cons hn =>
          exact .ite (by rw [Ty.same_congr hy hn]) (.done hy) (.error (.branchMismatch hy hn))
  | call =>
    cases htypes with
    | nil => exact .enter .nil
    | cons hf htypes => exact .ofCall hf htypes
  | seq =>
    cases htypes with
    | nil => exact .enter .nil
    | cons hb htypes =>
      cases htypes with
      | nil => exact .enter .nil
      | cons hr => exact .done hr
  | const y =>
    cases htypes with
    | nil => exact .enter .nil
    | cons hi htypes =>
      cases htypes with
      | nil => exact .enter (.cons ⟨rfl, hi⟩ .nil)
      | cons hr => exact .done hr

theorem move_like (hgh : g.renamed x = h.renamed x) {env env' : Env} (henv : Env.Like env env')
    {types types' : List Ty} (htypes : List.Forall₂ (fun T U => T.same U = true) types types')
    (width : Nat) : Move.Like (g.move env width types) (h.move env' width types') := by
  by_cases hg : ∃ ps, g = .func ps
  · obtain ⟨ps, rfl⟩ := hg
    obtain ⟨qs, rfl, hparams⟩ := exists_func_of_renamed hgh
    cases htypes with
    | nil =>
      refine .enter ?_
      rw [Param.bindings, Param.bindings, List.forall₂_map_left_iff, List.forall₂_map_right_iff]
      exact hparams
    | cons hresult =>
      refine .done ?_
      rw [Ty.same, Param.sameTypes_iff_forall₂.2 (hparams.imp fun _ _ hpq => hpq.2), hresult]
      rfl
  · have hfunc : ∀ ps, g ≠ .func ps := by simpa using hg
    obtain rfl := eq_of_renamed hgh hfunc
    exact move_like_self hfunc henv htypes width

end Head

/-! ## Checks -/

/-- Environments and terms that differ in names of parameters alone lead to moves that do so. -/
theorem simulation_like (x : String) :
    Simulation (fun T U => T.same U = true) TypeError.Like fun env t env' t' =>
      Env.Like env env' ∧ t.Like (fun _ g h => g.renamed x = h.renamed x) t' where
  default := rfl
  width := by
    intro env t env' t' hS
    exact hS.2.length_eq
  move := by
    intro env t env' t' types types' hS htypes
    obtain ⟨henv, ht⟩ := hS
    have hmove := Head.move_like ht.head henv htypes t.children.length
    rw [← ht.length_eq]
    generalize t.head.move env t.children.length types = m at hmove ⊢
    generalize t'.head.move env' t.children.length types' = m' at hmove ⊢
    cases hmove with
    | enter hbs => exact .enter fun c c' hc hc' => ⟨henv.extend hbs, ht.child hc hc'⟩
    | done hT => exact .done hT
    | @error c c' i hcause => exact .error ⟨hcause, ht.blame_id i⟩

/-- Names of parameters inside types never matter to a check. Two environments that are built by the
same extensions up to such names and two terms that differ in nothing else are checked alike by
every checker: either both have types, which are the same, or both have errors of the same kind at
the same node, which tell the same up to such names. Both runs enter equally many nodes. -/
theorem check_ignores_type_names {x : String} {env env' : Env} {t t' : Term}
    (henv : Env.Like env env') (ht : t.Like (fun _ g h => g.renamed x = h.renamed x) t')
    (c : Checker) :
    Agree (fun T U => T.same U = true) TypeError.Like (c.check env t).1 (c.check env' t').1 ∧
      (c.check env t).2 = (c.check env' t').2 := by
  have hrun := (simulation_like x).infer ⟨henv, ht⟩
  refine ⟨hrun.result, ?_⟩
  rw [Checker.check_eq, Checker.check_eq, hrun.visits]

/-- A function that takes a function, applied to one that the environment has: three types name
their parameters in two ways. -/
theorem check_ignores_type_names_call :
    let type (y : String) : Ty := .function [⟨y, .number⟩] .number
    let env (y : String) : Env := Env.empty.bind "f" (type y)
    let term (y : String) : Term :=
      .call ⟨3, ⟨0, 9⟩⟩
        (.func ⟨1, ⟨0, 6⟩⟩ (ParamDecl.ofParams [⟨"g", type y⟩]) (.var ⟨0, ⟨5, 6⟩⟩ "g"))
        [.var ⟨2, ⟨7, 8⟩⟩ "f"]
    Agree (fun T U => T.same U = true) TypeError.Like
        (Checker.new.check (env "a") (term "p")).1 (Checker.new.check (env "b") (term "q")).1 ∧
      (Checker.new.check (env "a") (term "p")).2 = (Checker.new.check (env "b") (term "q")).2 := by
  intro type env term
  have henv : Env.Like (env "a") (env "b") := .extend .empty (.cons ⟨rfl, by decide⟩ .nil)
  have hg : (Term.var ⟨0, ⟨5, 6⟩⟩ "g").Like (fun _ g h => g.renamed "" = h.renamed "")
      (.var ⟨0, ⟨5, 6⟩⟩ "g") := .of_forall₂ rfl rfl .nil
  have hf : (Term.var ⟨2, ⟨7, 8⟩⟩ "f").Like (fun _ g h => g.renamed "" = h.renamed "")
      (.var ⟨2, ⟨7, 8⟩⟩ "f") := .of_forall₂ rfl rfl .nil
  have hterm : (term "p").Like (fun _ g h => g.renamed "" = h.renamed "") (term "q") :=
    .of_forall₂ rfl rfl (.cons (.of_forall₂ rfl rfl (.cons hg .nil)) (.cons hf .nil))
  exact check_ignores_type_names henv hterm .new

end ArrowLang
