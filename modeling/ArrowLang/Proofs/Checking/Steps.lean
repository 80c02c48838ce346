import ArrowLang.Proofs.Checking
import ArrowLang.Proofs.Subterms

/-!
# A check, child by child

A check goes through the children of a term in their order. `Head.move` says how it goes on once the
first children have types: to the next child, with more names bound, to a type for the term, or to
an error. It reads what kind of term it is and never the children themselves, so a property of whole
checks is a property of `Head.move`, carried through `Term.walk` by induction over the children.
-/

namespace ArrowLang

/-! ## Moves -/

/-- What a term is apart from its node and its children. -/
inductive Head where
  | bool (value : Bool)
  | number (value : Binary64)
  | var (name : String)
  | add
  | cond
  | func (params : List Param)
  | call
  | seq
  | const (name : String)

def Term.head : Term → Head
  | .bool _ v => .bool v
  | .number _ v => .number v
  | .var _ x => .var x
  | .add .. => .add
  | .cond .. => .cond
  | .func _ ps _ => .func (ParamDecl.toParams ps)
  | .call .. => .call
  | .seq .. => .seq
  | .const _ x _ _ => .const x

/-- How a check goes on: into the next child, under these bindings, or to its end. -/
inductive Move where
  | enter (bindings : List (String × Ty))
  | done (type : Ty)

/-- A test that fails at the child with an index, or else at the term itself. -/
structure Objection where
  cause : TypeError.Cause
  child : Option Nat

/-- How the check of a call with `found` arguments goes on from the types of the callee and of the
first arguments. The last of these is yet to be tested against its parameter. -/
def Move.ofCall (found : Nat) (callee : Ty) (types : List Ty) : Except Objection Move :=
  match callee with
  | .function ps result =>
    if found = ps.length then
      let onward := if types.length = ps.length then .ok (.done result) else .ok (.enter [])
      match (ps.zip types).getLast? with
      | some (p, type) =>
        if type.same p.type then onward
        else .error ⟨.paramMismatch (types.length - 1) p.name p.type type, some types.length⟩
      | none => onward
    else .error ⟨.arityMismatch ps.length found callee, none⟩
  | _ => .error ⟨.notAFunction callee, some 0⟩

/-- How the check of a term with `width` children goes on from the types of the first of them. -/
def Head.move (env : Env) (width : Nat) (types : List Ty) : Head → Except Objection Move
  | .bool _ => .ok (.done .boolean)
  | .number _ => .ok (.done .number)
  | .var x =>
    match env.lookup x with
    | some type => .ok (.done type)
    | none => .error ⟨.unknownVariable x env.names, none⟩
  | .add =>
    match types with
    | [] => .ok (.enter [])
    | [left] =>
      if left.same .number then .ok (.enter []) else .error ⟨.numberExpected left, some 0⟩
    | _ :: right :: _ =>
      if right.same .number then .ok (.done .number) else .error ⟨.numberExpected right, some 1⟩
  | .cond =>
    match types with
    | [] | [_, _] => .ok (.enter [])
    | [test] =>
      if test.same .boolean then .ok (.enter []) else .error ⟨.booleanExpected test, some 0⟩
    | _ :: yes :: no :: _ =>
      if yes.same no then .ok (.done yes) else .error ⟨.branchMismatch yes no, none⟩
  | .func ps =>
    match types with
    | [] => .ok (.enter (Param.bindings ps))
    | result :: _ => .ok (.done (.function ps result))
  | .call =>
    match types with
    | [] => .ok (.enter [])
    | callee :: types => Move.ofCall (width - 1) callee types
  | .seq =>
    match types with
    | [] | [_] => .ok (.enter [])
    | _ :: rest :: _ => .ok (.done rest)
  | .const x =>
    match types with
    | [] => .ok (.enter [])
    | [init] => .ok (.enter [(x, init)])
    | _ :: rest :: _ => .ok (.done rest)

/-! ## Walks -/

/-- The next of the items that are left, and those after it. -/
theorem getElem?_of_drop_eq_cons {α : Type} {l rest : List α} {i : Nat} {a : α}
    (h : l.drop i = a :: rest) : l[i]? = some a ∧ l.drop (i + 1) = rest := by
  constructor
  · rw [← List.head?_drop, h, List.head?_cons]
  · rw [← List.drop_drop, h, List.drop_one, List.tail_cons]

@[simp] theorem Env.extend_nil (env : Env) : env.extend [] = env := rfl

namespace Traced

variable {α β : Type}

@[simp] theorem fail_bind (cause : TypeError.Cause) (t : Term) (f : α → Traced β) :
    fail cause t >>= f = fail cause t := rfl

@[simp] theorem map_fail (cause : TypeError.Cause) (t : Term) (f : α → β) :
    f <$> fail cause t = fail cause t := rfl

instance : LawfulMonad Traced :=
  LawfulMonad.mk' Traced
    (by
      intro α x
      obtain ⟨result, visits, after⟩ := x
      cases result with
      | error e => rfl
      | ok a => exact congrArg (Traced.mk (.ok a) · after) (List.append_nil visits))
    (by intro α β a f; rfl)
    (by
      intro α β γ x f g
      obtain ⟨result, visits, after⟩ := x
      cases result with
      | error e => rfl
      | ok a =>
        rw [bind_eq_of_ok (a := a) rfl, bind_eq_of_ok (a := a) rfl]
        cases hb : (f a).result with
        | error e =>
          rw [bind_eq_of_error hb]
          rfl
        | ok b =>
          rw [bind_eq_of_ok hb, bind_eq_of_ok (a := b) rfl]
          exact congrArg (Traced.mk _ · _) (List.append_assoc visits _ _))

/-- A checker counts the nodes that the run enters. -/
def Counts (x : Traced α) : Prop := ∀ c, x.after c = ⟨c.visited + x.visits.length⟩

theorem counts_pure (a : α) : (Pure.pure a : Traced α).Counts := fun _ => rfl

theorem counts_fail (cause : TypeError.Cause) (t : Term) : (fail cause t : Traced α).Counts :=
  fun _ => rfl

theorem counts_enter (env : Env) (t : Term) : (enter env t).Counts := fun _ => rfl

theorem Counts.bind {x : Traced α} {f : α → Traced β} (hx : x.Counts) (hf : ∀ a, (f a).Counts) :
    (x >>= f).Counts := by
  intro c
  cases hresult : x.result with
  | error e =>
    rw [bind_eq_of_error hresult]
    exact hx c
  | ok a =>
    rw [bind_eq_of_ok hresult]
    calc (f a).after (x.after c)
      _ = ⟨(x.after c).visited + (f a).visits.length⟩ := hf a _
      _ = ⟨c.visited + (x.visits ++ (f a).visits).length⟩ := by
        rw [hx c, List.length_append, Nat.add_assoc]

end Traced

namespace Term

open Traced

/-- The term that an objection is about. -/
def blame (t : Term) : Option Nat → Term
  | some i => t.children[i]?.getD t
  | none => t

/-- The check of a term once it has `types` for its first children, where `go` checks the others. -/
def resume (env : Env) (t : Term) (types : List Ty) (go : Env → Traced Ty) : Traced Ty :=
  match t.head.move env t.children.length types with
  | .ok (.enter bindings) => go (env.extend bindings)
  | .ok (.done type) => return type
  | .error o => fail o.cause (t.blame o.child)

/-- The check of a term from the children `cs` on, with `types` for those before. -/
def walk (env : Env) (t : Term) (types : List Ty) : List Term → Traced Ty
  | [] => t.resume env types fun _ => return default
  | c :: cs => t.resume env types fun env' => do
    let type ← c.infer env'
    t.walk env (types ++ [type]) cs

variable {env : Env} {t : Term} {types : List Ty} {go : Env → Traced Ty}

theorem walk_of_done {T : Ty} (h : t.head.move env t.children.length types = .ok (.done T))
    (cs : List Term) : t.walk env types cs = return T := by
  cases cs <;> rw [walk, resume, h]

theorem walk_of_error {o : Objection} (h : t.head.move env t.children.length types = .error o)
    (cs : List Term) : t.walk env types cs = fail o.cause (t.blame o.child) := by
  cases cs <;> rw [walk, resume, h]

theorem walk_of_enter {bs : List (String × Ty)}
    (h : t.head.move env t.children.length types = .ok (.enter bs)) (c : Term) (cs : List Term) :
    t.walk env types (c :: cs) = (do
      let type ← c.infer (env.extend bs)
      t.walk env (types ++ [type]) cs) := by
  rw [walk, resume, h]

theorem move_call {n : Node} {f : Term} {as : List Term} {callee : Ty} :
    (call n f as).head.move env (call n f as).children.length (callee :: types) =
      Move.ofCall as.length callee types := rfl

theorem ofCall_of_length_ne {found : Nat} {ps : List Param} {R : Ty} (h : found ≠ ps.length) :
    Move.ofCall found (.function ps R) types =
      .error ⟨.arityMismatch ps.length found (.function ps R), none⟩ :=
  if_neg h

/-- An argument is tested before the next one is entered. -/
theorem ofCall_concat {found : Nat} {ps qs : List Param} {q : Param} {R T : Ty}
    (hfound : found = (ps ++ q :: qs).length) (hlen : types.length = ps.length) :
    Move.ofCall found (.function (ps ++ q :: qs) R) (types ++ [T]) =
      if T.same q.type then if qs = [] then .ok (.done R) else .ok (.enter [])
      else .error ⟨.paramMismatch ps.length q.name q.type T, some (ps.length + 1)⟩ := by
  have hzip : ((ps ++ q :: qs).zip (types ++ [T])).getLast? = some (q, T) := by
    rw [List.zip_append hlen.symm]
    simp
  have honward : (types ++ [T]).length = (ps ++ q :: qs).length ↔ qs = [] := by
    simp [hlen]
  simp only [Move.ofCall, hzip, if_pos hfound, honward]
  simp [hlen]

/-- From the arguments `as` on, the check of a call goes on as a walk does. -/
theorem walk_args {n : Node} {f : Term} {as : List Term} {qs : List Param} {R : Ty}
    (before : List Term) (ps : List Param) (types : List Ty)
    (hbefore : before.length = ps.length) (has : as.length = qs.length)
    (hlen : types.length = ps.length)
    (hmove : Move.ofCall (before ++ as).length (.function (ps ++ qs) R) types =
      if qs = [] then .ok (.done R) else .ok (.enter [])) :
    (call n f (before ++ as)).walk env (.function (ps ++ qs) R :: types) as =
      (do inferArgs env ps.length as qs; return R) := by
  induction as generalizing qs before ps types with
  | nil =>
    obtain rfl : qs = [] := by simpa using has.symm
    rw [walk_of_done (move_call.trans hmove), inferArgs]
    · rfl
    · simp
  | cons a as ih =>
    obtain ⟨q, qs, rfl⟩ := List.exists_cons_of_length_eq_add_one has.symm
    rw [walk_of_enter (move_call.trans hmove), Env.extend_nil, inferArgs, bind_assoc]
    refine bind_congr fun T => ?_
    have htest : Move.ofCall (before ++ a :: as).length (.function (ps ++ q :: qs) R)
        (types ++ [T]) = _ := ofCall_concat (by simp [hbefore, has]) hlen
    by_cases hT : T.same q.type = true
    · rw [if_pos hT] at htest ⊢
      have hrest := ih (before ++ [a]) (ps ++ [q]) (types ++ [T]) (by simp [hbefore])
        (by simpa using has) (by simp [hlen]) (by simpa using htest)
      simpa using hrest
    · rw [if_neg hT] at htest ⊢
      rw [List.cons_append, walk_of_error (move_call.trans htest)]
      simp [blame, children, ← hbefore]

/-- A check is a walk through the children. -/
theorem infer_eq_walk (env : Env) (t : Term) :
    t.infer env = (do enter env t; t.walk env [] t.children) := by
  cases t with
  | bool n v | number n v | func n ps b =>
    rw [infer]
    rfl
  | var n x =>
    rw [infer]
    refine bind_congr fun _ => ?_
    rw [walk.eq_def, resume, head, Head.move]
    cases env.lookup x <;> rfl
  | add n l r =>
    rw [infer]
    refine bind_congr fun _ => bind_congr fun left => ?_
    change _ = walk env (add n l r) [left] [r]
    by_cases hl : left.same .number = true
    · have hmove : (add n l r).head.move env (add n l r).children.length [left] =
          .ok (.enter []) := if_pos hl
      rw [if_pos hl, walk_of_enter hmove]
      refine bind_congr fun right => ?_
      change _ = walk env (add n l r) [left, right] []
      by_cases hr : right.same .number = true <;>
        simp [walk, resume, head, Head.move, hr, blame, children]
    · simp [walk, resume, head, Head.move, hl, blame, children]
  | cond n c y e =>
    rw [infer]
    refine bind_congr fun _ => bind_congr fun test => ?_
    change _ = walk env (cond n c y e) [test] [y, e]
    by_cases hc : test.same .boolean = true
    · have hmove : (cond n c y e).head.move env (cond n c y e).children.length [test] =
          .ok (.enter []) := if_pos hc
      rw [if_pos hc, walk_of_enter hmove]
      refine bind_congr fun yes => bind_congr fun no => ?_
      change _ = walk env (cond n c y e) [test, yes, no] []
      by_cases hr : yes.same no = true <;> simp [walk, resume, head, Head.move, hr, blame]
    · simp [walk, resume, head, Head.move, hc, blame, children]
  | call n f as =>
    rw [infer]
    refine bind_congr fun _ => bind_congr fun callee => ?_
    change _ = walk env (call n f as) [callee] as
    cases callee with
    | boolean | number =>
      rw [walk_of_error (by rfl)]
      rfl
    | function ps R =>
      dsimp only
      by_cases hlen : as.length = ps.length
      · rw [if_pos hlen]
        refine (walk_args [] [] [] rfl hlen rfl ?_).symm
        have hempty : ([] : List Ty).length = ps.length ↔ ps = [] := by
          rw [eq_comm, List.length_nil, List.length_eq_zero_iff]
        simp only [Move.ofCall, List.nil_append, if_pos hlen, hempty, List.zip_nil_right]
        rfl
      · rw [if_neg hlen, walk_of_error (move_call.trans (ofCall_of_length_ne hlen))]
        rfl
  | seq n b r =>
    rw [infer]
    refine bind_congr fun _ => bind_congr fun _ => ?_
    exact (bind_pure _).symm
  | const n x i r =>
    rw [infer]
    refine bind_congr fun _ => bind_congr fun init => ?_
    exact (bind_pure _).symm

theorem counts_walk (ih : ∀ c ∈ t.children, ∀ env, (c.infer env).Counts) {cs : List Term}
    (hcs : cs ⊆ t.children) : (t.walk env types cs).Counts := by
  induction cs generalizing types with
  | nil =>
    rw [walk, resume]
    split
    · exact counts_pure _
    · exact counts_pure _
    · exact counts_fail _ _
  | cons c cs ihcs =>
    obtain ⟨hc, hcs⟩ := List.cons_subset.1 hcs
    rw [walk, resume]
    split
    · exact (ih c hc _).bind fun type => ihcs hcs
    · exact counts_pure _
    · exact counts_fail _ _

theorem counts_infer (env : Env) (t : Term) : (t.infer env).Counts := by
  induction t using children_induction generalizing env with
  | step t ih =>
    rw [infer_eq_walk]
    exact (counts_enter env t).bind fun _ => counts_walk ih (List.Subset.refl _)

end Term

/-- A checker gains as many nodes as the log has visits. -/
theorem Checker.check_eq (c : Checker) (env : Env) (t : Term) :
    c.check env t = ((t.infer env).result, ⟨c.visited + (t.infer env).visits.length⟩) :=
  congrArg (Prod.mk _) (t.counts_infer env c)

end ArrowLang
