import ArrowLang.Proofs.FreeVariables

/-!
# The order of visits

`Term.preorder` lists the nodes of a term, each before its children and these from left to right,
with the terms around them. A check enters nodes in this order and skips none. It may stop early, at
an error, and it enters all of them if it comes to a type. The depth that it records for a node
counts the frames that the terms around the node open.
-/

namespace ArrowLang

/-! ## Nodes in pre-order -/

/-- A node and the terms around it, from the innermost outwards, each with the index of the child
that leads to the node. -/
structure Spot where
  around : List (Term × Nat)
  term : Term

/-- Whether the child at index `i` gets a frame of its own: the rest after a constant, and the body
of a function that has parameters. -/
def Term.opensFrame : Term → Nat → Bool
  | .func _ ps _, _ => !ps.isEmpty
  | .const .., 1 => true
  | _, _ => false

namespace Spot

/-- How many of the terms around a node open a frame for it. -/
def frames (s : Spot) : Nat := s.around.countP fun (t, i) => t.opensFrame i

/-- The record of a visit by a check whose environment has `depth` frames. -/
def visit (depth : Nat) (s : Spot) : Visit := ⟨s.term.id, s.term.describe, depth + s.frames⟩

end Spot

namespace Term

mutual

/-- The nodes of a term inside the terms `around`: the term itself, then those of its children. -/
def preorder (around : List (Term × Nat)) (t : Term) : List Spot :=
  ⟨around, t⟩ :: match t with
    | bool .. | number .. | var .. => []
    | add _ l r => l.preorder ((t, 0) :: around) ++ r.preorder ((t, 1) :: around)
    | cond _ c y n =>
      c.preorder ((t, 0) :: around) ++ y.preorder ((t, 1) :: around) ++
        n.preorder ((t, 2) :: around)
    | func _ _ b => b.preorder ((t, 0) :: around)
    | call _ f as => f.preorder ((t, 0) :: around) ++ preorderAll around t 1 as
    | seq _ b r => b.preorder ((t, 0) :: around) ++ r.preorder ((t, 1) :: around)
    | const _ _ i r => i.preorder ((t, 0) :: around) ++ r.preorder ((t, 1) :: around)

/-- The nodes of the children of `t` from index `i` on. -/
def preorderAll (around : List (Term × Nat)) (t : Term) (i : Nat) : List Term → List Spot
  | [] => []
  | c :: cs => c.preorder ((t, i) :: around) ++ preorderAll around t (i + 1) cs

end

theorem preorder_eq (around : List (Term × Nat)) (t : Term) :
    t.preorder around = ⟨around, t⟩ :: preorderAll around t 0 t.children := by
  cases t <;> simp [preorder, preorderAll, children]

end Term

/-! ## Frames -/

theorem Env.depth_extend (env : Env) (bs : List (String × Ty)) :
    (env.extend bs).depth = env.depth + if bs.isEmpty then 0 else 1 := by
  cases bs <;> simp [extend, depth]

/-- A frame is opened where names are bound. -/
theorem Term.opensFrame_eq (t : Term) (i : Nat) : t.opensFrame i = !(t.head.binds i).isEmpty := by
  cases t with
  | func n ps b =>
    rw [opensFrame, head, Head.binds, ParamDecl.map_name_toParams]
    cases ps <;> rfl
  | const n x c r =>
    by_cases hi : i = 1
    · subst hi
      rfl
    · simp [opensFrame, head, Head.binds, hi]
  | bool | number | var | add | cond | call | seq => rfl

/-- A child is entered at the depth that the terms around it give. -/
theorem depth_of_enter {env : Env} {t c : Term} {types : List Ty} {bs : List (String × Ty)}
    {around : List (Term × Nat)} {depth : Nat}
    (hmove : t.head.move env t.children.length types = .ok (.enter bs))
    (hdepth : env.depth = depth + (Spot.mk around t).frames) :
    (env.extend bs).depth = depth + (Spot.mk ((t, types.length) :: around) c).frames := by
  have hbinds := Head.map_fst_of_enter hmove
  have hopens : t.opensFrame types.length = !bs.isEmpty := by
    rw [Term.opensFrame_eq, ← hbinds]
    cases bs <;> rfl
  rw [Env.depth_extend, hdepth]
  cases hbs : bs.isEmpty <;> simp [Spot.frames, hopens, hbs, Nat.add_assoc]

/-! ## Runs -/

namespace Traced

variable {α β : Type} {x : Traced α} {f : α → Traced β} {l m : List Visit}

/-- The run enters the first of the nodes in `l`, and all of them if it comes to a value. -/
structure Follows (x : Traced α) (l : List Visit) : Prop where
  starts : x.visits <+: l
  all : ∀ a, x.result = .ok a → x.visits = l

theorem Follows.bind (hx : x.Follows l) (hf : ∀ a, (f a).Follows m) :
    (x >>= f).Follows (l ++ m) := by
  cases hresult : x.result with
  | error e =>
    rw [bind_eq_of_error hresult]
    refine ⟨hx.starts.trans (List.prefix_append l m), ?_⟩
    intro b hb
    cases hb
  | ok a =>
    rw [bind_eq_of_ok hresult, hx.all a hresult]
    refine ⟨(List.prefix_append_right_inj l).2 (hf a).starts, ?_⟩
    intro b hb
    exact congrArg (l ++ ·) ((hf a).all b hb)

theorem follows_pure (a : α) : (Pure.pure a : Traced α).Follows [] :=
  ⟨List.prefix_rfl, fun _ _ => rfl⟩

theorem follows_fail (cause : TypeError.Cause) (t : Term) (l : List Visit) :
    (fail cause t : Traced α).Follows l := by
  refine ⟨List.nil_prefix, ?_⟩
  intro a ha
  cases ha

end Traced

namespace Term

open Traced

variable {env : Env} {t : Term} {types : List Ty} {around : List (Term × Nat)} {depth : Nat}

/-- A term gets its type after all its children. -/
theorem length_le_of_done {T : Ty}
    (h : t.head.move env t.children.length types = .ok (.done T)) :
    t.children.length ≤ types.length := by
  cases t with
  | bool | number | var => exact Nat.zero_le _
  | call n f as =>
    cases types with
    | nil => simp [head, Head.move] at h
    | cons callee types =>
      rw [move_call] at h
      unfold Move.ofCall at h
      simp only [children, List.length_cons]
      grind
  | add n l r | seq n l r | const n x l r | cond n l r e | func n ps b =>
    simp only [head, Head.move] at h
    simp only [children, List.length_cons, List.length_nil]
    grind

/-- A walk enters the nodes of the children in order, from any of them on. -/
theorem walk_follows
    (ih : ∀ c ∈ t.children, ∀ env around, env.depth = depth + (Spot.mk around c).frames →
      (c.infer env).Follows ((c.preorder around).map (Spot.visit depth)))
    (hdepth : env.depth = depth + (Spot.mk around t).frames) {cs : List Term}
    (hcs : t.children.drop types.length = cs) :
    (t.walk env types cs).Follows
      ((preorderAll around t types.length cs).map (Spot.visit depth)) := by
  induction cs generalizing types with
  | nil =>
    rw [walk, resume, preorderAll]
    split
    · exact follows_pure _
    · exact follows_pure _
    · exact follows_fail _ _ _
  | cons c cs ihcs =>
    cases hmove : t.head.move env t.children.length types with
    | error o =>
      rw [walk_of_error hmove]
      exact follows_fail _ _ _
    | ok m =>
      cases m with
      | done T =>
        -- no child is left
        have hlength := length_le_of_done hmove
        rw [List.drop_eq_nil_of_le hlength] at hcs
        cases hcs
      | enter bs =>
        rw [walk_of_enter hmove, preorderAll, List.map_append]
        obtain ⟨hc, hrest⟩ := getElem?_of_drop_eq_cons hcs
        apply (ih c (List.mem_of_getElem? hc) _ _ (depth_of_enter hmove hdepth)).bind
        intro T
        have hcs' : t.children.drop (types ++ [T]).length = cs := by simpa using hrest
        simpa using ihcs hcs'

/-- A check enters the nodes of its term in order. -/
theorem infer_follows (t : Term) (hdepth : env.depth = depth + (Spot.mk around t).frames) :
    (t.infer env).Follows ((t.preorder around).map (Spot.visit depth)) := by
  induction t using children_induction generalizing env around with
  | step t ih =>
    have henter : (enter env t).Follows [Spot.visit depth ⟨around, t⟩] := by
      constructor
      · simp [enter, Spot.visit, hdepth]
      · simp [enter, Spot.visit, hdepth]
    rw [infer_eq_walk, preorder_eq, List.map_cons]
    apply henter.bind
    intro _
    exact walk_follows (fun c hc env around => ih c hc) hdepth rfl

end Term

/-- A check enters the nodes of a term in pre-order, up to where it stops, and it enters all of them
if it comes to a type. Each visit has the number and the description of its node, and the depth
counts the frames of the environment and those that the terms around the node open. Nothing but the
verdict comes after the visits in the log, and a checker counts the visits. -/
theorem check_visits_in_preorder (c : Checker) (env : Env) (t : Term) :
    ∃ entered left, t.preorder [] = entered ++ left ∧
      (t.infer env).visits = entered.map (Spot.visit env.depth) ∧
      (∃ verdict, (t.typecheck env).2 =
        entered.map (fun s => .visit (s.visit env.depth)) ++ [verdict] ∧
          ∀ v, verdict ≠ .visit v) ∧
      (c.check env t).2.visited = c.visited + entered.length ∧
      ∀ T, (c.check env t).1 = .ok T → left = [] := by
  have hfollows : (t.infer env).Follows ((t.preorder []).map (Spot.visit env.depth)) :=
    t.infer_follows rfl
  obtain ⟨entered, ⟨left, hsplit⟩, hvisits⟩ := List.prefix_map_iff.1 hfollows.starts
  have hlength : (t.infer env).visits.length = entered.length := by
    rw [hvisits, List.length_map]
  refine ⟨entered, left, hsplit.symm, hvisits, ?_, ?_, ?_⟩
  · rw [Term.typecheck, hvisits, List.map_map]
    refine ⟨_, rfl, ?_⟩
    intro v
    split <;> simp
  · rw [Checker.check_eq, hlength]
  · intro T hT
    have hall := congrArg List.length (hfollows.all T hT)
    rw [hlength, List.length_map, ← hsplit, List.length_append] at hall
    exact List.eq_nil_of_length_eq_zero (by omega)

end ArrowLang
