import ArrowLang.Proofs.Checking
import ArrowLang.Proofs.Subterms

/-!
# The first error

`Violation` says which tests a single term can fail, each with the error that tells of it, and
`Located` says where terms stand below a term and under which environment. A check reports the
violation that comes first from left to right. The argument has two halves: `Term.first_fault` says
it of one term and the checks of its children, form by form, and an induction over the term carries
it down to the place of the error.
-/

namespace ArrowLang

/-! ## Places and violations -/

/-- The environment for the child at index `i`. A constant is bound in the rest after it, and only
if its own term has a type. -/
def Term.childEnv (env : Env) : Term → Nat → Option Env
  | .func _ ps _, _ => some (env.extend (Param.bindings (ParamDecl.toParams ps)))
  | .const _ x i _, 1 => (i.check env).toOption.map (env.bind x)
  | _, _ => some env

/-- `Located env t path L s`: from `t` under `env`, the path of child indices leads to the term `s`
under the environment `L`. -/
inductive Located : Env → Term → List Nat → Env → Term → Prop where
  | here {env t} : Located env t [] env t
  | child {env env' L t c s i path} : t.children[i]? = some c → t.childEnv env i = some env' →
      Located env' c path L s → Located env t (i :: path) L s

/-- `Violation L t k e`: the test that the term `t` makes under `L` after its first `k` children
fails, and `e` reports it. -/
inductive Violation (L : Env) : Term → Nat → TypeError → Prop where
  | unknownVariable {n x} : L.lookup x = none →
      Violation L (.var n x) 0 ⟨.unknownVariable x L.names, .var n x⟩
  | leftOperand {n l r T} : l.check L = .ok T → T.same .number = false →
      Violation L (.add n l r) 1 ⟨.numberExpected T, l⟩
  | rightOperand {n l r T} : r.check L = .ok T → T.same .number = false →
      Violation L (.add n l r) 2 ⟨.numberExpected T, r⟩
  | condition {n c y e T} : c.check L = .ok T → T.same .boolean = false →
      Violation L (.cond n c y e) 1 ⟨.booleanExpected T, c⟩
  | branches {n c y e T U} : y.check L = .ok T → e.check L = .ok U → T.same U = false →
      Violation L (.cond n c y e) 3 ⟨.branchMismatch T U, .cond n c y e⟩
  | callee {n f as T} : f.check L = .ok T → (∀ ps R, T ≠ .function ps R) →
      Violation L (.call n f as) 1 ⟨.notAFunction T, f⟩
  | arity {n f as ps R} : f.check L = .ok (.function ps R) → as.length ≠ ps.length →
      Violation L (.call n f as) 1
        ⟨.arityMismatch ps.length as.length (.function ps R), .call n f as⟩
  | argument {n f as ps R i a p T} : f.check L = .ok (.function ps R) → as.length = ps.length →
      as[i]? = some a → ps[i]? = some p → a.check L = .ok T → T.same p.type = false →
      Violation L (.call n f as) (i + 2) ⟨.paramMismatch i p.name p.type T, a⟩

/-- The order of tests in a check. The test after the first `k` children of a term comes after
every test inside those and before every test inside the others. -/
inductive Precedes : List Nat → Nat → List Nat → Nat → Prop where
  | tests {k l} : k < l → Precedes [] k [] l
  | testChild {k j q l} : k ≤ j → Precedes [] k (j :: q) l
  | childTest {i p k l} : i < l → Precedes (i :: p) k [] l
  | children {i p k j q l} : i < j → Precedes (i :: p) k (j :: q) l
  | inside {i p k q l} : Precedes p k q l → Precedes (i :: p) k (i :: q) l

/-- Of two tests one precedes the other, or they are the same. -/
theorem Precedes.trichotomy (p : List Nat) (k : Nat) (q : List Nat) (l : Nat) :
    Precedes p k q l ∨ (p = q ∧ k = l) ∨ Precedes q l p k := by
  induction p generalizing q with
  | nil =>
    cases q with
    | nil =>
      rcases Nat.lt_trichotomy k l with h | h | h
      · exact .inl (.tests h)
      · exact .inr (.inl ⟨rfl, h⟩)
      · exact .inr (.inr (.tests h))
    | cons j q =>
      rcases Nat.lt_or_ge j k with h | h
      · exact .inr (.inr (.childTest h))
      · exact .inl (.testChild h)
  | cons i p ih =>
    cases q with
    | nil =>
      rcases Nat.lt_or_ge i l with h | h
      · exact .inl (.childTest h)
      · exact .inr (.inr (.testChild h))
    | cons j q =>
      rcases Nat.lt_trichotomy i j with h | rfl | h
      · exact .inl (.children h)
      · rcases ih q with h | ⟨rfl, rfl⟩ | h
        · exact .inl (.inside h)
        · exact .inr (.inl ⟨rfl, rfl⟩)
        · exact .inr (.inr (.inside h))
      · exact .inr (.inr (.children h))

theorem Located.unique {env L L' : Env} {t s s' : Term} {path : List Nat}
    (h : Located env t path L s) (h' : Located env t path L' s') : L = L' ∧ s = s' := by
  induction h with
  | here =>
    cases h'
    exact ⟨rfl, rfl⟩
  | child hc henv _ ih =>
    cases h' with
    | child hc' henv' h' =>
      obtain rfl := Option.some.inj (hc.symm.trans hc')
      obtain rfl := Option.some.inj (henv.symm.trans henv')
      exact ih h'

namespace Violation

variable {L : Env} {t : Term} {k : Nat} {e e' : TypeError}

theorem unique (h : Violation L t k e) (h' : Violation L t k e') : e = e' := by
  cases h <;> cases h' <;> grind

/-- A term makes no test beyond the one after its last child. -/
theorem le_length_children (h : Violation L t k e) : k ≤ t.children.length := by
  cases h with
  | argument _ _ ha =>
    have := (List.getElem?_eq_some_iff.mp ha).1
    simp only [Term.children, List.length_cons]
    omega
  | _ => simp [Term.children]

end Violation

/-! ## One term -/

/-- What can go wrong in a term itself or, as a whole, in one of its children. The stages of a
term alternate: the test after the first `k` children is stage `2 * k`, and the child at index `i`
is stage `2 * i + 1`. -/
inductive Fault (env : Env) (t : Term) : Nat → TypeError → Prop where
  | test {k e} : Violation env t k e → Fault env t (2 * k) e
  | child {i c env' e} : t.children[i]? = some c → t.childEnv env i = some env' →
      c.check env' = .error e → Fault env t (2 * i + 1) e

/-- No stage before `j` is at fault. -/
def Clear (env : Env) (t : Term) (j : Nat) : Prop := ∀ i < j, ∀ e, ¬ Fault env t i e

/-- From stage `j` on, the check of `t` comes to `x`: once the stages before are clear, `x` is the
error of the first fault, and it is a type only if there is no fault at all. -/
def Settles (env : Env) (t : Term) (j : Nat) (x : Except TypeError Ty) : Prop :=
  Clear env t j →
    (∀ T, x = .ok T → ∀ i, Clear env t i) ∧
    (∀ e, x = .error e → ∃ i, Fault env t i e ∧ Clear env t i)

section Stages

variable {env env' : Env} {t c : Term} {i k : Nat} {e : TypeError} {x : Except TypeError Ty}

theorem Clear.test (h : Clear env t (2 * k)) (hk : ∀ e, ¬ Violation env t k e) :
    Clear env t (2 * k + 1) := by
  intro j hj e hfault
  rcases Nat.lt_or_eq_of_le (Nat.le_of_lt_succ hj) with hlt | rfl
  · exact h j hlt e hfault
  · generalize hstage : 2 * k = j at hfault
    cases hfault with
    | test hv =>
      obtain rfl : k = _ := Nat.eq_of_mul_eq_mul_left (by decide) hstage
      exact hk e hv
    | child => omega

theorem Clear.child (h : Clear env t (2 * i + 1)) (hc : t.children[i]? = some c)
    (henv : t.childEnv env i = some env') {T : Ty} (hT : c.check env' = .ok T) :
    Clear env t (2 * (i + 1)) := by
  intro j hj e hfault
  rcases Nat.lt_or_eq_of_le (Nat.le_of_lt_succ hj) with hlt | rfl
  · exact h j hlt e hfault
  · generalize hstage : 2 * i + 1 = j at hfault
    cases hfault with
    | test => omega
    | @child i' c' env'' e hc' henv' herror =>
      obtain rfl : i = i' := by omega
      obtain rfl := Option.some.inj (hc.symm.trans hc')
      obtain rfl := Option.some.inj (henv.symm.trans henv')
      rw [hT] at herror
      cases herror

theorem Clear.last (h : Clear env t (2 * t.children.length + 1)) (j : Nat) : Clear env t j := by
  intro i _ e hfault
  refine h i ?_ e hfault
  cases hfault with
  | test hv =>
    have := hv.le_length_children
    omega
  | child hc =>
    have := (List.getElem?_eq_some_iff.mp hc).1
    omega

theorem settles_ok (hk : ∀ e, ¬ Violation env t t.children.length e) (T : Ty) :
    Settles env t (2 * t.children.length) (.ok T) := by
  intro hclear
  refine ⟨fun _ _ => (hclear.test hk).last, ?_⟩
  rintro e ⟨⟩

theorem settles_error (h : Violation env t k e) : Settles env t (2 * k) (.error e) := by
  intro hclear
  refine ⟨by rintro T ⟨⟩, ?_⟩
  rintro e' ⟨⟩
  exact ⟨2 * k, .test h, hclear⟩

theorem settles_ite {p : Prop} [Decidable p] (hv : ¬ p → Violation env t k e)
    (h : p → Settles env t (2 * k) x) : Settles env t (2 * k) (if p then x else .error e) := by
  split
  case isTrue hp => exact h hp
  case isFalse hp => exact settles_error (hv hp)

theorem settles_pass (hk : ∀ e, ¬ Violation env t k e) (h : Settles env t (2 * k + 1) x) :
    Settles env t (2 * k) x :=
  fun hclear => h (hclear.test hk)

theorem settles_bind (hc : t.children[i]? = some c) (henv : t.childEnv env i = some env')
    {f : Ty → Except TypeError Ty}
    (h : ∀ T, c.check env' = .ok T → Settles env t (2 * (i + 1)) (f T)) :
    Settles env t (2 * i + 1) (c.check env' >>= f) := by
  intro hclear
  cases hx : c.check env' with
  | error e =>
    refine ⟨by rintro T ⟨⟩, ?_⟩
    rintro e' ⟨⟩
    exact ⟨2 * i + 1, .child hc henv hx, hclear⟩
  | ok T => exact h T hx (hclear.child hc henv hx)

theorem settles_last (hc : t.children[i]? = some c) (henv : t.childEnv env i = some env')
    (hlen : t.children.length = i + 1) (hk : ∀ e, ¬ Violation env t (i + 1) e) :
    Settles env t (2 * i + 1) (c.check env') := by
  have hbind : c.check env' = c.check env' >>= .ok := by cases c.check env' <;> rfl
  rw [hbind]
  refine settles_bind hc henv fun T _ => ?_
  rw [← hlen] at hk ⊢
  exact settles_ok hk T

end Stages

/-- From the argument at index `i` on, each argument is checked and then tested against its
parameter. -/
theorem settles_args {env : Env} {n : Node} {f : Term} {as : List Term} {ps : List Param} {R : Ty}
    (hf : f.check env = .ok (.function ps R)) (hlen : as.length = ps.length) {i : Nat}
    (hi : i ≤ as.length) (hk : ∀ e, ¬ Violation env (.call n f as) (i + 1) e) :
    Settles env (.call n f as) (2 * (i + 1))
      (do Term.checkArgs env i (as.drop i) (ps.drop i); .ok R) := by
  -- by the number of arguments that are left
  induction hm : as.length - i generalizing i with
  | zero =>
    obtain rfl : i = as.length := by omega
    rw [List.drop_length, Term.checkArgs_nil]
    exact settles_ok hk R
  | succ m ih =>
    have hia : i < as.length := by omega
    have hip : i < ps.length := by omega
    have ha : as[i]? = some as[i] := List.getElem?_eq_getElem hia
    have hp : ps[i]? = some ps[i] := List.getElem?_eq_getElem hip
    rw [List.drop_eq_getElem_cons hia, List.drop_eq_getElem_cons hip, Term.checkArgs_cons,
      bind_assoc]
    refine settles_pass hk (settles_bind (by simp [Term.children]) rfl fun T hT => ?_)
    rw [TypeError.ite_error_bind]
    refine settles_ite (fun hsame => ?_) fun hsame => ?_
    · exact .argument hf hlen ha hp hT (eq_false_of_ne_true hsame)
    · refine ih hia ?_ (by omega)
      rintro e ⟨⟩
      simp_all

/-- A check reports the first fault of a term. -/
theorem Term.settles (env : Env) (t : Term) : Settles env t 0 (t.check env) := by
  cases t with
  | bool n v =>
    rw [check_bool]
    exact settles_ok (by rintro e ⟨⟩) _
  | number n v =>
    rw [check_number]
    exact settles_ok (by rintro e ⟨⟩) _
  | var n x =>
    rw [check_var]
    cases hx : env.lookup x with
    | none => exact settles_error (.unknownVariable hx)
    | some T =>
      refine settles_ok ?_ T
      rintro e ⟨hnone⟩
      simp [hx] at hnone
  | add n l r =>
    rw [check_add]
    refine settles_pass (k := 0) (by rintro e ⟨⟩) (settles_bind rfl rfl fun T hl => ?_)
    refine settles_ite (fun hT => .leftOperand hl (eq_false_of_ne_true hT)) fun hT => ?_
    have hpass : ∀ e, ¬ Violation env (.add n l r) (0 + 1) e := by
      rintro e ⟨hl', hT'⟩
      simp_all
    refine settles_pass hpass (settles_bind rfl rfl fun U hr => ?_)
    refine settles_ite (fun hU => .rightOperand hr (eq_false_of_ne_true hU)) fun hU => ?_
    refine settles_ok ?_ .number
    rintro e ⟨hr', hU'⟩
    simp_all
  | cond n c y e =>
    rw [check_cond]
    refine settles_pass (k := 0) (by rintro e ⟨⟩) (settles_bind rfl rfl fun T hc => ?_)
    refine settles_ite (fun hT => .condition hc (eq_false_of_ne_true hT)) fun hT => ?_
    have hpass : ∀ e', ¬ Violation env (.cond n c y e) (0 + 1) e' := by
      rintro e' ⟨hc', hT'⟩
      simp_all
    refine settles_pass hpass (settles_bind rfl rfl fun U hy => ?_)
    refine settles_pass (by rintro e ⟨⟩) (settles_bind rfl rfl fun V he => ?_)
    refine settles_ite (fun hV => .branches hy he (eq_false_of_ne_true hV)) fun hV => ?_
    refine settles_ok ?_ U
    rintro e' ⟨hy', he', hV'⟩
    simp_all
  | func n ps b =>
    rw [check_func]
    refine settles_pass (k := 0) (by rintro e ⟨⟩) (settles_bind rfl rfl fun R _ => ?_)
    exact settles_ok (by rintro e ⟨⟩) _
  | call n f as =>
    rw [check_call]
    refine settles_pass (k := 0) (by rintro e ⟨⟩) (settles_bind rfl rfl fun T hf => ?_)
    cases T with
    | boolean | number => exact settles_error (.callee hf (by rintro ps R ⟨⟩))
    | function ps R =>
      refine settles_ite (fun hlen => .arity hf hlen) fun hlen => ?_
      refine settles_args hf hlen (Nat.zero_le _) ?_
      intro e hv
      cases hv with
      | callee hf' hne =>
        rw [hf] at hf'
        exact hne ps R (Except.ok.inj hf').symm
      | arity hf' hne =>
        rw [hf] at hf'
        cases hf'
        exact hne hlen
  | seq n b r =>
    rw [check_seq]
    refine settles_pass (k := 0) (by rintro e ⟨⟩) (settles_bind rfl rfl fun _ _ => ?_)
    refine settles_pass (by rintro e ⟨⟩) ?_
    exact settles_last rfl rfl rfl (by rintro e ⟨⟩)
  | const n x i r =>
    rw [check_const]
    refine settles_pass (k := 0) (by rintro e ⟨⟩) (settles_bind rfl rfl fun T hi => ?_)
    refine settles_pass (by rintro e ⟨⟩) ?_
    exact settles_last rfl (by rw [childEnv, hi]; rfl) rfl (by rintro e ⟨⟩)

theorem Term.not_fault_of_check {env : Env} {t : Term} {T : Ty} (h : t.check env = .ok T)
    {j : Nat} {e : TypeError} : ¬ Fault env t j e :=
  (t.settles env (by simp [Clear])).1 T h (j + 1) j (Nat.lt_succ_self j) e

theorem Term.exists_fault_of_check {env : Env} {t : Term} {e : TypeError}
    (h : t.check env = .error e) : ∃ j, Fault env t j e ∧ Clear env t j :=
  (t.settles env (by simp [Clear])).2 e h

/-! ## The whole term -/

/-- The stage of a term that a test at or below it belongs to. -/
def stage : List Nat → Nat → Nat
  | [], k => 2 * k
  | i :: _, _ => 2 * i + 1

/-- A violation below a term is a fault of it, though maybe with another error. -/
theorem Located.exists_fault {env L : Env} {t s : Term} {path : List Nat} {k : Nat}
    {e : TypeError} (h : Located env t path L s) (hv : Violation L s k e) :
    ∃ e', Fault env t (stage path k) e' := by
  induction h with
  | here => exact ⟨e, .test hv⟩
  | @child env env' L t c s i path hc henv _ ih =>
    obtain ⟨e', hfault⟩ := ih hv
    -- a child at fault does not come to a type, so it is a fault of its parent
    cases hx : c.check env' with
    | error e'' => exact ⟨e'', .child hc henv hx⟩
    | ok T => exact absurd hfault (Term.not_fault_of_check hx)

/-- `e` reports a violation in `t` that comes before every other one. -/
structure FirstViolation (env : Env) (t : Term) (path : List Nat) (k : Nat) (e : TypeError) :
    Prop where
  violated : ∃ L s, Located env t path L s ∧ Violation L s k e
  first : ∀ path' L' s' k' e', Located env t path' L' s' → Violation L' s' k' e' →
    ¬ Precedes path' k' path k

namespace FirstViolation

variable {env : Env} {t : Term} {path path' : List Nat} {k k' : Nat} {e e' : TypeError}

theorem unique (h : FirstViolation env t path k e) (h' : FirstViolation env t path' k' e') :
    e = e' := by
  obtain ⟨L, s, hloc, hv⟩ := h.violated
  obtain ⟨L', s', hloc', hv'⟩ := h'.violated
  rcases Precedes.trichotomy path k path' k' with hlt | ⟨rfl, rfl⟩ | hgt
  · exact absurd hlt (h'.first _ _ _ _ _ hloc hv)
  · obtain ⟨rfl, rfl⟩ := hloc.unique hloc'
    exact hv.unique hv'
  · exact absurd hgt (h.first _ _ _ _ _ hloc' hv')

/-- The first violation of a child is the first of the term if no earlier stage is at fault. -/
theorem child {c : Term} {env' : Env} {i : Nat} (hc : t.children[i]? = some c)
    (henv : t.childEnv env i = some env') (h : FirstViolation env' c path k e)
    (hclear : Clear env t (2 * i + 1)) : FirstViolation env t (i :: path) k e := by
  obtain ⟨L, s, hloc, hv⟩ := h.violated
  refine ⟨⟨L, s, .child hc henv hloc, hv⟩, ?_⟩
  intro path' L' s' k' e' hloc' hv' hprec
  obtain ⟨e'', hfault⟩ := hloc'.exists_fault hv'
  cases hprec with
  | testChild hle => exact hclear (2 * k') (by omega) e'' hfault
  | @children j _ _ _ _ _ hlt => exact hclear (2 * j + 1) (by omega) e'' hfault
  | inside hprec =>
    cases hloc' with
    | child hc' henv' hloc' =>
      obtain rfl := Option.some.inj (hc.symm.trans hc')
      obtain rfl := Option.some.inj (henv.symm.trans henv')
      exact h.first _ _ _ _ _ hloc' hv' hprec

theorem test (hv : Violation env t k e) (hclear : Clear env t (2 * k)) :
    FirstViolation env t [] k e := by
  refine ⟨⟨env, t, .here, hv⟩, ?_⟩
  intro path' L' s' k' e' hloc' hv' hprec
  obtain ⟨e'', hfault⟩ := hloc'.exists_fault hv'
  cases hprec with
  | tests hlt => exact hclear (2 * k') (by omega) e'' hfault
  | @childTest j _ _ _ hlt => exact hclear (2 * j + 1) (by omega) e'' hfault

end FirstViolation

theorem Term.exists_firstViolation {env : Env} {t : Term} {e : TypeError}
    (h : t.check env = .error e) : ∃ path k, FirstViolation env t path k e := by
  induction t using children_induction generalizing env with
  | step t ih =>
    obtain ⟨j, hfault, hclear⟩ := exists_fault_of_check h
    cases hfault with
    | @test k _ hv => exact ⟨[], k, .test hv hclear⟩
    | @child i c env' _ hc henv hx =>
      obtain ⟨path, k, hfirst⟩ := ih c (List.mem_of_getElem? hc) hx
      exact ⟨i :: path, k, .child hc henv hfirst hclear⟩

/-- A check fails exactly with the error of the first violation in the term: its place, its local
environment and all that it tells are as checks of the terms right there find them. -/
theorem typecheck_eq_error_iff_firstViolation (env : Env) (t : Term) (e : TypeError) :
    (t.typecheck env).1 = .error e ↔ ∃ path k, FirstViolation env t path k e := by
  refine ⟨Term.exists_firstViolation, ?_⟩
  rintro ⟨path, k, hfirst⟩
  obtain ⟨L, s, hloc, hv⟩ := hfirst.violated
  change t.check env = .error e
  cases hx : t.check env with
  | ok T =>
    obtain ⟨e', hfault⟩ := hloc.exists_fault hv
    exact absurd hfault (Term.not_fault_of_check hx)
  | error e' =>
    obtain ⟨path', k', hfirst'⟩ := Term.exists_firstViolation hx
    rw [hfirst'.unique hfirst]

end ArrowLang
