import ArrowLang.Env
import ArrowLang.Typing.Error

/-!
# Inferring types

`Term.infer` goes through a term from left to right, stops at the first error and keeps a record of
the nodes that it enters. The checker that makes the run counts them as it enters them.
-/

namespace ArrowLang

/-- A node was entered at some depth of the environment. -/
structure Visit where
  id : Nat
  node : String
  depth : Nat
deriving DecidableEq

/-- A checker counts the nodes that it has entered in all its runs. -/
structure Checker where
  visited : Nat

namespace Checker

def new : Checker := ⟨0⟩

def enter (c : Checker) : Checker := ⟨c.visited + 1⟩

end Checker

/-- A result, and the nodes entered on the way to it. -/
structure Traced (α : Type) where
  result : Except TypeError α
  visits : List Visit
  /-- What the run makes of a checker. -/
  after : Checker → Checker

namespace Traced

variable {α β : Type}

def pure (a : α) : Traced α := ⟨.ok a, [], id⟩

def bind (x : Traced α) (f : α → Traced β) : Traced β :=
  match x.result with
  | .error e => ⟨.error e, x.visits, x.after⟩
  | .ok a => ⟨(f a).result, x.visits ++ (f a).visits, (f a).after ∘ x.after⟩

instance : Monad Traced where
  pure := pure
  bind := bind

@[simp] theorem result_pure (a : α) : (Pure.pure a : Traced α).result = .ok a := rfl

@[simp] theorem visits_pure (a : α) : (Pure.pure a : Traced α).visits = [] := rfl

theorem bind_eq_of_ok {x : Traced α} {a : α} (h : x.result = .ok a) (f : α → Traced β) :
    x >>= f = ⟨(f a).result, x.visits ++ (f a).visits, (f a).after ∘ x.after⟩ := by
  simp [Bind.bind, Traced.bind, h]

theorem bind_eq_of_error {x : Traced α} {e : TypeError} (h : x.result = .error e)
    (f : α → Traced β) : x >>= f = ⟨.error e, x.visits, x.after⟩ := by
  simp [Bind.bind, Traced.bind, h]

/-- Records that a term is entered. -/
def enter (env : Env) (t : Term) : Traced Unit :=
  ⟨.ok (), [⟨t.id, t.describe, env.depth⟩], Checker.enter⟩

/-- Stops with an error at a term. -/
def fail (cause : TypeError.Cause) (t : Term) : Traced α := ⟨.error ⟨cause, t⟩, [], id⟩

end Traced

/-- The bindings that parameters make. -/
def Param.bindings (ps : List Param) : List (String × Ty) := ps.map fun p => (p.name, p.type)

open Traced

mutual

def Term.infer (env : Env) (t : Term) : Traced Ty := do
  enter env t
  match t with
  | .bool .. => return .boolean
  | .number .. => return .number
  | .var _ x =>
    match env.lookup x with
    | some type => return type
    | none => fail (.unknownVariable x env.names) t
  | .add _ l r =>
    let left ← l.infer env
    unless left.same .number do fail (.numberExpected left) l
    let right ← r.infer env
    unless right.same .number do fail (.numberExpected right) r
    return .number
  | .cond _ c y n =>
    let test ← c.infer env
    unless test.same .boolean do fail (.booleanExpected test) c
    let yes ← y.infer env
    let no ← n.infer env
    unless yes.same no do fail (.branchMismatch yes no) t
    return yes
  | .func _ ps b =>
    let params := ParamDecl.toParams ps
    let result ← b.infer (env.extend (Param.bindings params))
    return .function params result
  | .call _ f as =>
    let callee ← f.infer env
    match callee with
    | .function params result =>
      unless as.length = params.length do
        fail (.arityMismatch params.length as.length callee) t
      Term.inferArgs env 0 as params
      return result
    | _ => fail (.notAFunction callee) f
  | .seq _ b r =>
    let _ ← b.infer env
    r.infer env
  | .const _ x i r =>
    let init ← i.infer env
    r.infer (env.bind x init)

/-- Checks arguments against the parameters that take them, the first at `position`. -/
def Term.inferArgs (env : Env) (position : Nat) : List Term → List Param → Traced Unit
  | a :: as, p :: ps => do
    let type ← a.infer env
    unless type.same p.type do fail (.paramMismatch position p.name p.type type) a
    Term.inferArgs env (position + 1) as ps
  | _, _ => return ()

end

def Checker.check (c : Checker) (env : Env) (t : Term) : Except TypeError Ty × Checker :=
  let run := t.infer env
  (run.result, run.after c)

/-- What a log tells of a check. -/
inductive Event where
  | visit (v : Visit)
  | succeeded (visited : Nat) (type : Ty)
  | failed (visited : Nat) (error : TypeError)

/-- Checks a term, with the log of the run. -/
def Term.typecheck (env : Env) (t : Term) : Except TypeError Ty × List Event :=
  let run := t.infer env
  let visited := (run.after .new).visited
  let verdict := match run.result with
    | .ok type => Event.succeeded visited type
    | .error e => Event.failed visited e
  (run.result, run.visits.map .visit ++ [verdict])

end ArrowLang
