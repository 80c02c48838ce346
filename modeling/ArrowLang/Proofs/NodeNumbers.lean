import ArrowLang.Proofs.Grammar.Numbering

/-!
# Numbers that the parser hands out

The parser can be asked for programs and expressions again and again, and goes on each time from
where it stopped, after a failure too. A term that it returns has the numbers from the counter on in
post-order, as if it had been built from its parts. The counter never goes down, and no node is
numbered without a token of its own, so the counter is at most the number of tokens.
-/

namespace ArrowLang

open Cursor Outcome

/-! ## Nodes are paid for with tokens -/

/-- `s.Spends k r`: on the way from `s` to `r` the counter did not go down, and at least `k` more
tokens were passed than nodes completed. -/
structure Cursor.Spends (k : Nat) (s r : Cursor) : Prop where
  nextId_le : s.nextId ≤ r.nextId
  cost_le : r.nextId + r.left + k ≤ s.nextId + s.left

namespace Cursor.Spends

variable {j k : Nat} {s q r : Cursor} {α β : Type}

theorem refl (s : Cursor) : s.Spends 0 s := ⟨Nat.le_refl _, Nat.le_refl _⟩

theorem trans (h : s.Spends j q) (g : q.Spends k r) : s.Spends (j + k) r := by
  have hid := Nat.le_trans h.nextId_le g.nextId_le
  have hcost := h.cost_le
  have gcost := g.cost_le
  exact ⟨hid, by omega⟩

theorem forget (h : s.Spends k r) : s.Spends 0 r :=
  ⟨h.nextId_le, Nat.le_trans (Nat.add_le_add_left (Nat.zero_le k) _) h.cost_le⟩

theorem left_le (h : s.Spends k r) : r.left + k ≤ s.left := by
  have hid := h.nextId_le
  have hcost := h.cost_le
  omega

/-- Passes one more token. -/
theorem next {t : Token} {ts : List Token} (h : s.Spends k r) (hr : r.ahead = t :: ts) :
    s.Spends (k + 1) { r with ahead := ts } := by
  have hone : r.Spends 1 { r with ahead := ts } := by
    refine ⟨Nat.le_refl _, ?_⟩
    simp only [left, hr, List.length_cons]
    omega
  exact h.trans hone

/-- Completes a node for one of the tokens. -/
theorem tick (h : s.Spends (k + 1) r) : s.Spends k r.tick := by
  have hid := h.nextId_le
  have hcost := h.cost_le
  refine ⟨Nat.le_succ_of_le hid, ?_⟩
  change r.nextId + 1 + r.left + k ≤ s.nextId + s.left
  omega

/-- Reads on from `q`. A success keeps the `k` tokens in hand, and a failure needs none. -/
theorem bind {x : Reading α} {f : α → Cursor → Reading β} (h : s.Spends k q)
    (hx : q.Spends 0 x.rest) (hf : ∀ a r, s.Spends k r → s.Spends 0 (f a r).rest) :
    s.Spends 0 (x.bind f).rest := by
  have hrest := h.trans hx
  obtain ⟨res, r⟩ := x
  cases res with
  | error e => exact hrest.forget
  | ok a => exact hf a r hrest

end Cursor.Spends

theorem expect_spends (s : Cursor) (k : Token.Kind) : s.Spends 0 (s.expect k).reading.rest := by
  rw [reading_expect]
  split
  · rename_i t ts hs
    split
    · exact ((Spends.refl s).next hs).forget
    · exact .refl s
  · exact .refl s

theorem expectName_spends (s : Cursor) : s.Spends 0 s.expectName.reading.rest := by
  rw [reading_expectName]
  split
  · rename_i hs
    exact ((Spends.refl s).next hs).forget
  · exact .refl s

namespace Parse

mutual

theorem typeExpr_spends (s : Cursor) : s.Spends 0 (typeExpr s).reading.rest := by
  rw [reading_typeExpr]
  split
  · rename_i hs
    have hnext := ((Spends.refl s).next hs).forget
    split
    · exact hnext
    · split <;> exact hnext
  · rename_i a ts hs
    have h := (Spends.refl s).next hs
    have hlt := h.left_le
    apply h.bind (params_spends _)
    intro ps r₁ h₁
    apply h₁.bind (expect_spends r₁ _)
    intro _ r₂ h₂
    have hlt₂ := h₂.left_le
    apply h₂.bind (typeExpr_spends r₂)
    intro result r₃ h₃
    exact h₃.forget
  · exact .refl s
termination_by 2 * s.left

theorem params_spends (s : Cursor) : s.Spends 0 (params s).reading.rest := by
  rw [reading_params]
  split
  · rename_i hs
    exact ((Spends.refl s).next hs).forget
  · apply (Spends.refl s).bind (expectName_spends s)
    intro x r₁ h₁
    apply h₁.bind (expect_spends r₁ _)
    intro _ r₂ h₂
    have hle := h₂.left_le
    apply h₂.bind (typeExpr_spends r₂)
    intro type r₃ h₃
    unfold moreParams
    split
    · rename_i hs
      have h₄ := h₃.next hs
      have hlt := h₄.left_le
      exact h₄.bind (params_spends _) fun ps r h => h.forget
    · exact h₃.bind (expect_spends r₃ _) fun _ r h => h
termination_by 2 * s.left + 1

end

mutual

theorem expr_spends (s : Cursor) : s.Spends 0 (expr s).reading.rest := by
  rw [reading_expr]
  apply (Spends.refl s).bind (sum_spends s _)
  intro test r h
  unfold afterSum
  split
  · rename_i hr
    have h₁ := h.next hr
    have hlt₁ := h₁.left_le
    apply h₁.bind (expr_spends _)
    intro yes r₂ h₂
    apply h₂.bind (expect_spends r₂ _)
    intro _ r₃ h₃
    have hlt₃ := h₃.left_le
    apply h₃.bind (expr_spends r₃)
    intro no r₄ h₄
    exact h₄.tick
  · exact h
termination_by 5 * s.left + 3

theorem sum_spends (s : Cursor) (start : Nat) : s.Spends 0 (sum start s).rest := by
  apply (Spends.refl s).bind (operand_spends s)
  intro first r h
  have hle := h.left_le
  exact h.trans (addends_spends start first r)
termination_by 5 * s.left + 2

theorem addends_spends (start : Nat) (sum : Term) (s : Cursor) :
    s.Spends 0 (addends start sum s).reading.rest := by
  rw [reading_addends]
  split
  · rename_i hs
    have h := (Spends.refl s).next hs
    have hlt := h.left_le
    apply h.bind (operand_spends _)
    intro next r h₁
    have hlt₁ := h₁.left_le
    exact h₁.tick.trans (addends_spends start _ r.tick)
  · exact .refl s
termination_by 5 * s.left

theorem operand_spends (s : Cursor) : s.Spends 0 (operand s).reading.rest := by
  rw [reading_operand]
  apply (Spends.refl s).bind (atom_spends s)
  intro callee r h
  have hle := h.left_le
  exact h.trans (calls_spends callee r)
termination_by 5 * s.left + 1

theorem calls_spends (callee : Term) (s : Cursor) :
    s.Spends 0 (calls callee s).reading.rest := by
  rw [reading_calls]
  split
  · rename_i hs
    have h := (Spends.refl s).next hs
    have hlt := h.left_le
    apply h.bind (args_spends _)
    intro as r h₁
    have hlt₁ := h₁.left_le
    exact h₁.tick.trans (calls_spends _ r.tick)
  · exact .refl s
termination_by 5 * s.left

theorem args_spends (s : Cursor) : s.Spends 0 (args s).reading.rest := by
  rw [reading_args]
  split
  · rename_i hs
    exact ((Spends.refl s).next hs).forget
  · apply (Spends.refl s).bind (expr_spends s)
    intro a r h
    unfold moreArgs
    split
    · rename_i hr
      have h₁ := h.next hr
      have hlt₁ := h₁.left_le
      exact h₁.bind (args_spends _) fun as r h => h.forget
    · exact h.bind (expect_spends r _) fun _ r h => h
termination_by 5 * s.left + 4

theorem atom_spends (s : Cursor) : s.Spends 0 (atom s).reading.rest := by
  rw [reading_atom]
  split
  iterate 3
    · rename_i hs
      exact ((Spends.refl s).next hs).tick
  · rename_i a ts hs
    have h := (Spends.refl s).next hs
    have hlt := h.left_le
    split
    · apply h.bind (params_spends _)
      intro ps r₁ h₁
      apply h₁.bind (expect_spends r₁ _)
      intro _ r₂ h₂
      have hlt₂ := h₂.left_le
      apply h₂.bind (expr_spends r₂)
      intro body r₃ h₃
      exact h₃.tick
    · apply h.bind (expr_spends _)
      intro inner r₁ h₁
      exact h₁.bind (expect_spends r₁ _) fun _ r h => h.forget
  · exact .refl s
termination_by 5 * s.left

end

theorem statements_spends (s : Cursor) : s.Spends 0 (statements s).reading.rest := by
  rw [reading_statements]
  split
  · rename_i a ts hs
    have h := (Spends.refl s).next hs
    apply h.bind (expectName_spends _)
    intro x r₁ h₁
    apply h₁.bind (expect_spends r₁ _)
    intro _ r₂ h₂
    apply h₂.bind (expr_spends r₂)
    intro init r₃ h₃
    apply h₃.bind (expect_spends r₃ _)
    intro _ r₄ h₄
    have hlt₄ := h₄.left_le
    unfold constBody
    split
    · exact h₄.bind (statements_spends r₄) fun rest r h => h.tick
    · exact h₄.forget
  · apply (Spends.refl s).bind (expr_spends s)
    intro body r h
    unfold moreStatements
    split
    · rename_i hr
      have h₁ := h.next hr
      have hlt₁ := h₁.left_le
      unfold seqRest
      split
      · exact h₁.bind (statements_spends _) fun rest r h => h.tick
      · exact h₁.forget
    · exact h
termination_by s.left

theorem program_spends (s : Cursor) : s.Spends 0 (program s).reading.rest := by
  rw [reading_program]
  apply (Spends.refl s).bind (statements_spends s)
  intro t r h
  unfold finish
  split
  · exact h
  · exact h

end Parse

/-! ## Terms built from their parts -/

namespace Shape

mutual

theorem counts_toTerm (i : Nat) : ∀ s : Shape, Counts i (s.toTerm i).1.ids (s.toTerm i).2
  | bool _ | number _ | var _ => Counts.nil.concat
  | add l r => ((counts_toTerm i l).append (counts_toTerm _ r)).concat
  | cond c t e =>
    (((counts_toTerm i c).append (counts_toTerm _ t)).append (counts_toTerm _ e)).concat
  | func _ b => (counts_toTerm i b).concat
  | call f as => ((counts_toTerm i f).append (counts_toTerms _ as)).concat
  | seq b r => ((counts_toTerm i b).append (counts_toTerm _ r)).concat
  | const _ e r => ((counts_toTerm i e).append (counts_toTerm _ r)).concat

theorem counts_toTerms (i : Nat) :
    ∀ ss : List Shape, Counts i (Term.idsAll (toTerms i ss).1) (toTerms i ss).2
  | [] => .nil
  | s :: ss => (counts_toTerm i s).append (counts_toTerms _ ss)

end

mutual

theorem shape_toTerm (i : Nat) : ∀ s : Shape, (s.toTerm i).1.shape = s
  | bool _ | number _ | var _ => rfl
  | add l r => by simp [toTerm, Term.shape, shape_toTerm _ l, shape_toTerm _ r]
  | cond c t e => by
    simp [toTerm, Term.shape, shape_toTerm _ c, shape_toTerm _ t, shape_toTerm _ e]
  | func ps b => by simp [toTerm, Term.shape, shape_toTerm _ b]
  | call f as => by simp [toTerm, Term.shape, shape_toTerm _ f, shapes_toTerms _ as]
  | seq b r => by simp [toTerm, Term.shape, shape_toTerm _ b, shape_toTerm _ r]
  | const x e r => by simp [toTerm, Term.shape, shape_toTerm _ e, shape_toTerm _ r]

theorem shapes_toTerms (i : Nat) : ∀ ss : List Shape, Term.shapes (toTerms i ss).1 = ss
  | [] => rfl
  | s :: ss => by simp [toTerms, Term.shapes, shape_toTerm _ s, shapes_toTerms _ ss]

end

end Shape

/-! ## One parser asked again and again -/

namespace Parse

/-- What a parser can be asked for. -/
inductive Call where
  | program
  | expr

def Call.outcome : Call → (s : Cursor) → Outcome s Term
  | program, s => Parse.program s
  | expr, s => Parse.expr s

/-- The outcome of a call and where it started. -/
structure Answer where
  start : Cursor
  outcome : Outcome start Term

/-- The answers to calls that each start where the one before stopped, first of all from `s`. -/
def answers : Cursor → List Call → List Answer
  | _, [] => []
  | s, c :: cs => ⟨s, c.outcome s⟩ :: answers (c.outcome s).rest cs

/-- The numbers of the nodes of the term returned, if there is one. -/
def Answer.ids (a : Answer) : List Nat :=
  match a.outcome.result with
  | .ok t => t.ids
  | .error _ => []

theorem Call.spends (c : Call) (s : Cursor) : s.Spends 0 (c.outcome s).rest :=
  match c with
  | program => program_spends s
  | expr => expr_spends s

theorem Call.counts (c : Call) {s : Cursor} {t : Term} (h : (c.outcome s).result = .ok t) :
    Counts s.nextId t.ids (c.outcome s).rest.nextId := by
  have hreading : (c.outcome s).reading = ⟨.ok t, (c.outcome s).rest⟩ := by rw [reading, h]
  cases c with
  | program =>
    obtain ⟨u, v, -, -, hstmts⟩ := program_written hreading
    exact hstmts.counts
  | expr =>
    obtain ⟨u, -, hexpr, -⟩ := expr_written hreading
    exact hexpr.counts

/-- A term has a node, and a node costs a token. -/
theorem Call.left_lt {c : Call} {s : Cursor} {t : Term} (h : (c.outcome s).result = .ok t) :
    (c.outcome s).rest.left < s.left := by
  have hid : t.id ∈ t.ids := Term.Within.id_mem_ids .refl
  rw [(c.counts h).2, List.Ico.mem] at hid
  have hcost := (c.spends s).cost_le
  omega

theorem Call.postorder (c : Call) {s : Cursor} {t : Term} (h : (c.outcome s).result = .ok t) :
    t.ids = List.range' s.nextId t.ids.length ∧
      (c.outcome s).rest.nextId = s.nextId + t.ids.length ∧
      (t.shape.toTerm s.nextId).1.Like (fun _ => Eq) t := by
  have hcounts := c.counts h
  have hle := hcounts.1
  have hlength : t.ids.length = (c.outcome s).rest.nextId - s.nextId := by
    rw [hcounts.2, List.Ico.length]
  refine ⟨?_, by omega, .of_counts (Shape.shape_toTerm _ _) (Shape.counts_toTerm _ _) hcounts⟩
  rw [hlength]
  exact hcounts.2

/-- The numbers in one answer increase, from the counter before it up to the counter after it. -/
theorem Call.ids_between (c : Call) (s : Cursor) :
    (Answer.ids ⟨s, c.outcome s⟩).Pairwise (· < ·) ∧
      ∀ i ∈ Answer.ids ⟨s, c.outcome s⟩, s.nextId ≤ i ∧ i < (c.outcome s).rest.nextId := by
  unfold Answer.ids
  split
  · rename_i t ht
    rw [(c.counts ht).2]
    exact ⟨List.Ico.pairwise_lt _ _, fun i hi => List.Ico.mem.1 hi⟩
  · simp

/-- Each answer is that of a call from somewhere further on. -/
theorem exists_call_of_mem_answers {s : Cursor} {cs : List Call} {a : Answer}
    (h : a ∈ answers s cs) : ∃ (c : Call) (q : Cursor), a = ⟨q, c.outcome q⟩ ∧ s.Spends 0 q := by
  induction cs generalizing s with
  | nil => simp [answers] at h
  | cons c cs ih =>
    rcases List.mem_cons.1 h with rfl | h
    · exact ⟨c, s, rfl, .refl s⟩
    · obtain ⟨d, q, ha, hq⟩ := ih h
      exact ⟨d, q, ha, (c.spends s).trans hq⟩

theorem pairwise_ids_answers (s : Cursor) (cs : List Call) :
    ((answers s cs).flatMap Answer.ids).Pairwise (· < ·) := by
  induction cs generalizing s with
  | nil => simp [answers]
  | cons c cs ih =>
    obtain ⟨hpairwise, hbetween⟩ := c.ids_between s
    rw [answers, List.flatMap_cons, List.pairwise_append]
    refine ⟨hpairwise, ih _, fun i hi j hj => ?_⟩
    obtain ⟨a, ha, hj⟩ := List.mem_flatMap.1 hj
    obtain ⟨d, q, rfl, hq⟩ := exists_call_of_mem_answers ha
    have hij := (hbetween i hi).2
    have hle := hq.nextId_le
    have hqj := ((d.ids_between q).2 j hj).1
    omega

/-- However one parser is called, each term it returns has its nodes numbered in post-order from the
counter on, as the term of the same shape that is built from its parts, and the counter goes up by
as many nodes. It never goes down, and stays in 32 bits if the number of tokens does. So the numbers
in all terms together are increasing. -/
theorem answers_number_in_postorder {tokens : List Token} (h : tokens.length < 0x100000000)
    (calls : List Call) :
    (Cursor.ofTokens tokens).nextId = 0 ∧
    (∀ a ∈ answers (.ofTokens tokens) calls,
      a.start.nextId ≤ a.outcome.rest.nextId ∧ a.outcome.rest.nextId < 0x100000000 ∧
      ∀ t, a.outcome.result = .ok t →
        t.ids = List.range' a.start.nextId t.ids.length ∧
        a.outcome.rest.nextId = a.start.nextId + t.ids.length ∧
        (t.shape.toTerm a.start.nextId).1.Like (fun _ => Eq) t) ∧
    ((answers (.ofTokens tokens) calls).flatMap Answer.ids).Pairwise (· < ·) := by
  refine ⟨rfl, fun a ha => ?_, pairwise_ids_answers _ _⟩
  obtain ⟨c, q, rfl, hq⟩ := exists_call_of_mem_answers ha
  have hcall := c.spends q
  have hcost := (hq.trans hcall).cost_le
  have hleft : (Cursor.ofTokens tokens).left ≤ tokens.length :=
    (List.takeWhile_sublist _).length_le
  have hzero : (Cursor.ofTokens tokens).nextId = 0 := rfl
  exact ⟨hcall.nextId_le, by dsimp only; omega, fun t ht => c.postorder ht⟩

/-- In `(a b + (c) d` the first call fails at `b` and its number is not used again. -/
theorem answers_number_in_postorder_failure :
    let tokens : List Token := [⟨.leftParen, ⟨0, 1⟩⟩, ⟨.ident "a", ⟨1, 2⟩⟩, ⟨.ident "b", ⟨3, 4⟩⟩,
      ⟨.plus, ⟨5, 6⟩⟩, ⟨.leftParen, ⟨7, 8⟩⟩, ⟨.ident "c", ⟨8, 9⟩⟩, ⟨.rightParen, ⟨9, 10⟩⟩,
      ⟨.ident "d", ⟨11, 12⟩⟩, ⟨.eof, ⟨12, 12⟩⟩]
    let found := answers (.ofTokens tokens) [.expr, .expr, .program]
    tokens.length < 0x100000000 ∧ found.map Answer.ids = [[], [1, 2, 3], [4]] ∧
      (found.flatMap Answer.ids).Pairwise (· < ·) := by
  intro tokens found
  have hlength : tokens.length < 0x100000000 := by decide
  exact ⟨hlength, by decide +kernel, (answers_number_in_postorder hlength _).2.2⟩

end Parse

end ArrowLang
