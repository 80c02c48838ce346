import ArrowLang.Typing.Infer

/-!
# Checking, form by form

`Term.check` is the result of a check without its log. For each form of terms there is one equation
for it, and nothing after this module opens `Term.infer` for a result.
-/

namespace ArrowLang

/-! ## Results -/

namespace Traced

variable {α β : Type}

@[simp] theorem result_bind (x : Traced α) (f : α → Traced β) :
    (x >>= f).result = x.result >>= fun a => (f a).result := by
  cases h : x.result with
  | error e => rw [bind_eq_of_error h]; rfl
  | ok a => rw [bind_eq_of_ok h]; rfl

@[simp] theorem result_enter (env : Env) (t : Term) : (enter env t).result = .ok () := rfl

@[simp] theorem result_fail (cause : TypeError.Cause) (t : Term) :
    (fail cause t : Traced α).result = .error ⟨cause, t⟩ := rfl

@[simp] theorem result_ite {p : Prop} [Decidable p] (x y : Traced α) :
    (if p then x else y).result = if p then x.result else y.result := by
  split <;> rfl

end Traced

namespace TypeError

variable {α β : Type}

@[simp] theorem ok_bind (a : α) (f : α → Except TypeError β) : (Except.ok a >>= f) = f a := rfl

@[simp] theorem error_bind (e : TypeError) (f : α → Except TypeError β) :
    (Except.error e >>= f) = .error e := rfl

theorem ite_error_bind {p : Prop} [Decidable p] (x : Except TypeError α) (e : TypeError)
    (f : α → Except TypeError β) :
    (if p then x else .error e) >>= f = if p then x >>= f else .error e := by
  split <;> rfl

theorem bind_eq_ok_iff {x : Except TypeError α} {f : α → Except TypeError β} {b : β} :
    x >>= f = .ok b ↔ ∃ a, x = .ok a ∧ f a = .ok b := by
  cases x <;> simp

theorem ite_error_eq_ok_iff {p : Prop} [Decidable p] {x : Except TypeError α} {e : TypeError}
    {a : α} : (if p then x else .error e) = .ok a ↔ p ∧ x = .ok a := by
  split <;> simp [*]

end TypeError

/-! ## One equation for each form -/

namespace Term

open TypeError

/-- What the check of a term comes to. -/
def check (env : Env) (t : Term) : Except TypeError Ty := (t.typecheck env).1

/-- What the check of arguments comes to, the first at `position`. -/
def checkArgs (env : Env) (position : Nat) (as : List Term) (ps : List Param) :
    Except TypeError Unit :=
  (inferArgs env position as ps).result

variable {env : Env} {n : Node}

attribute [local simp] infer inferArgs

theorem result_infer (env : Env) (t : Term) : (t.infer env).result = t.check env := rfl

@[simp] theorem check_bool {v : Bool} : (bool n v).check env = .ok .boolean := by
  simp [check, typecheck]

@[simp] theorem check_number {v : Binary64} : (number n v).check env = .ok .number := by
  simp [check, typecheck]

theorem check_var {x : String} :
    (var n x).check env = match env.lookup x with
      | some type => .ok type
      | none => .error ⟨.unknownVariable x env.names, var n x⟩ := by
  rw [check, typecheck, infer]
  cases env.lookup x <;> simp

theorem check_add {l r : Term} :
    (add n l r).check env = (do
      let left ← l.check env
      if left.same .number then
        let right ← r.check env
        if right.same .number then .ok .number
        else .error ⟨.numberExpected right, r⟩
      else .error ⟨.numberExpected left, l⟩) := by
  rw [check, typecheck, infer]
  simp [result_infer]

theorem check_cond {c y e : Term} :
    (cond n c y e).check env = (do
      let test ← c.check env
      if test.same .boolean then
        let yes ← y.check env
        let no ← e.check env
        if yes.same no then .ok yes
        else .error ⟨.branchMismatch yes no, cond n c y e⟩
      else .error ⟨.booleanExpected test, c⟩) := by
  rw [check, typecheck, infer]
  simp [result_infer]

theorem check_func {ps : List ParamDecl} {b : Term} :
    (func n ps b).check env = (do
      let result ← b.check (env.extend (Param.bindings (ParamDecl.toParams ps)))
      .ok (.function (ParamDecl.toParams ps) result)) := by
  rw [check, typecheck, infer]
  simp [result_infer]

theorem check_call {f : Term} {as : List Term} :
    (call n f as).check env = (do
      let callee ← f.check env
      match callee with
      | .function params result =>
        if as.length = params.length then
          checkArgs env 0 as params
          .ok result
        else .error ⟨.arityMismatch params.length as.length callee, call n f as⟩
      | _ => .error ⟨.notAFunction callee, f⟩) := by
  rw [check, typecheck, infer]
  simp only [Traced.result_bind, Traced.result_enter, ok_bind, result_infer]
  congr 1
  funext callee
  cases callee with
  | boolean | number => rfl
  | function params result => simp [checkArgs]

theorem check_seq {b r : Term} :
    (seq n b r).check env = (do
      let _ ← b.check env
      r.check env) := by
  rw [check, typecheck, infer]
  simp [result_infer]

theorem check_const {x : String} {i r : Term} :
    (const n x i r).check env = (do
      let init ← i.check env
      r.check (env.bind x init)) := by
  rw [check, typecheck, infer]
  simp [result_infer]

@[simp] theorem checkArgs_nil {k : Nat} {ps : List Param} : checkArgs env k [] ps = .ok () := by
  simp [checkArgs]

theorem checkArgs_cons {k : Nat} {a : Term} {as : List Term} {p : Param} {ps : List Param} :
    checkArgs env k (a :: as) (p :: ps) = (do
      let type ← a.check env
      if type.same p.type then checkArgs env (k + 1) as ps
      else .error ⟨.paramMismatch k p.name p.type type, a⟩) := by
  rw [checkArgs, inferArgs]
  simp [result_infer, checkArgs]

end Term

end ArrowLang
