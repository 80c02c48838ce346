import ArrowLang.Proofs.Grammar.Replace

/-!
# Only kinds of tokens matter

The parser decides by the kinds of the tokens ahead, and their spans only go into the spans of what
it returns. From tokens of the same kinds every function of the parser comes to the same up to
spans: it passes equally many tokens and reads the same, or it fails with an error of the same cause
(`parse_of_kinds`).
-/

namespace ArrowLang

open Cursor Outcome

variable {α β γ δ : Type}

/-- Two results that agree: values that `R` relates, or errors of one cause. -/
inductive ParseAgree (R : α → β → Prop) : Except ParseError α → Except ParseError β → Prop where
  | ok {a b} : R a b → ParseAgree R (.ok a) (.ok b)
  | error {e e'} : e.cause = e'.cause → ParseAgree R (.error e) (.error e')

/-! ## Places and readings -/

/-- Places with tokens of the same kinds ahead, where the next node gets the same number. -/
structure Cursor.Like (s s' : Cursor) : Prop where
  kinds : s.kinds = s'.kinds
  nextId : s.nextId = s'.nextId

namespace Cursor.Like

variable {s s' : Cursor}

theorem tick (h : s.Like s') : s.tick.Like s'.tick := ⟨h.kinds, congrArg (· + 1) h.nextId⟩

theorem nil (h : s.Like s') (hs : s.ahead = []) : s'.ahead = [] := by
  have hkinds := h.kinds
  rw [Cursor.kinds, Cursor.kinds, hs] at hkinds
  exact List.map_eq_nil_iff.1 hkinds.symm

theorem next {k : Token.Kind} {a : Span} {ts : List Token} (h : s.Like s')
    (hs : s.ahead = ⟨k, a⟩ :: ts) : ∃ b us, s'.ahead = ⟨k, b⟩ :: us ∧
      Cursor.Like { s with ahead := ts } { s' with ahead := us } := by
  have hkinds := h.kinds
  rw [Cursor.kinds, Cursor.kinds, hs] at hkinds
  obtain ⟨⟨k', b⟩, us, hs', rfl, hrest⟩ := List.map_eq_cons_iff.1 hkinds.symm
  exact ⟨b, us, hs', hrest.symm, h.nextId⟩

theorem kind (h : s.Like s') : s.kind = s'.kind := by
  cases hs : s.ahead with
  | nil => simp [Cursor.kind, hs, h.nil hs]
  | cons t ts =>
    obtain ⟨k, a⟩ := t
    obtain ⟨b, us, hs', -⟩ := h.next hs
    rw [kind_of_ahead hs, kind_of_ahead hs']

end Cursor.Like

namespace Reading

/-- Two readings that agree and stop at places that agree. -/
structure Like (R : α → β → Prop) (x : Reading α) (y : Reading β) : Prop where
  result : ParseAgree R x.result y.result
  rest : x.rest.Like y.rest

namespace Like

variable {R : α → β → Prop} {S : γ → δ → Prop} {s s' : Cursor}

theorem ok {a : α} {b : β} (hab : R a b) (h : s.Like s') : Like R ⟨.ok a, s⟩ ⟨.ok b, s'⟩ :=
  ⟨.ok hab, h⟩

theorem fail (h : s.Like s') (wanted : Expectation) :
    Like R (s.fail wanted).reading (s'.fail wanted).reading :=
  ⟨.error (congrArg (ParseError.Cause.unexpected wanted) h.kind), h⟩

theorem ite {p : Prop} [Decidable p] {x x' : Reading α} {y y' : Reading β} (h : Like R x y)
    (h' : Like R x' y') : Like R (if p then x else x') (if p then y else y') := by
  split
  · exact h
  · exact h'

theorem bind {x : Reading α} {y : Reading β} {f : α → Cursor → Reading γ}
    {g : β → Cursor → Reading δ} (h : Like R x y)
    (hfg : ∀ a b r r', x = ⟨.ok a, r⟩ → R a b → r.Like r' → Like S (f a r) (g b r')) :
    Like S (x.bind f) (y.bind g) := by
  obtain ⟨xres, r⟩ := x
  obtain ⟨yres, r'⟩ := y
  obtain ⟨hresult, hrest⟩ := h
  cases hresult with
  | ok hab => exact hfg _ _ r r' rfl hab hrest
  | error he => exact ⟨.error he, hrest⟩

end Like

end Reading

theorem Term.Like.withSpan {H : Nat → Head → Head → Prop} {t u : Term} (h : t.Like H u)
    (a b : Span) : (t.withSpan a).Like H (u.withSpan b) := by
  refine .node ?_ ?_ ?_ ?_
  · simpa using h.id_eq
  · simpa using h.head
  · simpa using h.length_eq
  · intro i c d hc hd
    rw [children_withSpan] at hc hd
    exact h.child hc hd

theorem expect_like {s s' : Cursor} (h : s.Like s') (k : Token.Kind) :
    Reading.Like (fun _ _ => True) (s.expect k).reading (s'.expect k).reading := by
  rw [reading_expect, reading_expect]
  cases hs : s.ahead with
  | nil =>
    rw [h.nil hs]
    exact .fail h _
  | cons t ts =>
    obtain ⟨k', a⟩ := t
    obtain ⟨b, us, hs', hrest⟩ := h.next hs
    rw [hs']
    exact .ite (.ok trivial hrest) (.fail h _)

theorem expectName_like {s s' : Cursor} (h : s.Like s') :
    Reading.Like Eq s.expectName.reading s'.expectName.reading := by
  rw [reading_expectName, reading_expectName]
  cases hs : s.ahead with
  | nil =>
    rw [h.nil hs]
    exact .fail h _
  | cons t ts =>
    obtain ⟨k, a⟩ := t
    obtain ⟨b, us, hs', hrest⟩ := h.next hs
    rw [hs']
    cases k with
    | ident x => exact .ok rfl hrest
    | _ => exact .fail h _

namespace Parse

/-! ## Types -/

mutual

theorem typeExpr_like {s s' : Cursor} (h : s.Like s') :
    Reading.Like (fun T U => T.toTy = U.toTy) (typeExpr s).reading (typeExpr s').reading := by
  rw [reading_typeExpr, reading_typeExpr]
  cases hs : s.ahead with
  | nil =>
    rw [h.nil hs]
    exact .fail h _
  | cons t ts =>
    obtain ⟨k, a⟩ := t
    obtain ⟨b, us, hs', hrest⟩ := h.next hs
    rw [hs']
    cases k with
    | ident x =>
      exact .ite (.ok (by simp [TypeExpr.toTy]) hrest)
        (.ite (.ok (by simp [TypeExpr.toTy]) hrest) ⟨.error rfl, hrest⟩)
    | leftParen =>
      have hlt := left_lt_of_cons hs
      apply (params_like hrest).bind
      intro ps qs r₁ r₁' hps hparams h₁
      have hle₁ := left_le_of_reading hps
      apply (expect_like h₁ .fatArrow).bind
      intro _ _ r₂ r₂' harrow _ h₂
      have hle₂ := left_le_of_reading harrow
      apply (typeExpr_like h₂).bind
      intro T U r₃ r₃' _ hresult h₃
      exact .ok (by simp [TypeExpr.toTy, hparams, hresult]) h₃
    | _ => exact .fail h _
termination_by 2 * s.left

theorem params_like {s s' : Cursor} (h : s.Like s') :
    Reading.Like (fun ps qs => ParamDecl.toParams ps = ParamDecl.toParams qs) (params s).reading
      (params s').reading := by
  by_cases hclose : s.kind = .rightParen
  · obtain ⟨ts, hs⟩ := exists_ahead_of_kind (by decide) hclose
    obtain ⟨b, us, hs', hrest⟩ := h.next hs
    rw [reading_params, reading_params, hs, hs']
    exact .ok rfl hrest
  · rw [params_of_kind_ne hclose, params_of_kind_ne (h.kind ▸ hclose)]
    apply (expectName_like h).bind
    rintro x _ r₁ r₁' hname rfl h₁
    have hlt := (passes_of_expectName hname).1.left_lt
    apply (expect_like h₁ .colon).bind
    intro _ _ r₂ r₂' hcolon _ h₂
    have hle₂ := left_le_of_reading hcolon
    apply (typeExpr_like h₂).bind
    intro T U r₃ r₃' htype hTU h₃
    have hle₃ := left_le_of_reading htype
    by_cases hcomma : r₃.kind = .comma
    · obtain ⟨ts, hs⟩ := exists_ahead_of_kind (by decide) hcomma
      obtain ⟨b, us, hs', hrest⟩ := h₃.next hs
      have hlt' := left_lt_of_cons hs
      rw [moreParams, moreParams, hs, hs']
      apply (params_like hrest).bind
      intro ps qs r₄ r₄' _ hparams h₄
      exact .ok (by simp [ParamDecl.toParams, hTU, hparams]) h₄
    · rw [moreParams_of_kind_ne hcomma, moreParams_of_kind_ne (h₃.kind ▸ hcomma)]
      apply (expect_like h₃ .rightParen).bind
      intro _ _ r₄ r₄' _ _ h₄
      exact .ok (by simp [ParamDecl.toParams, hTU]) h₄
termination_by 2 * s.left + 1

end

/-! ## Expressions -/

theorem startsArrow_of_kinds {ts us : List Token} (h : ts.map (·.kind) = us.map (·.kind)) :
    startsArrow ts = startsArrow us := by
  rw [Bool.eq_iff_iff, startsArrow_iff, startsArrow_iff, h]

mutual

theorem expr_like {s s' : Cursor} (h : s.Like s') :
    Reading.Like (Term.Like fun _ => Eq) (expr s).reading (expr s').reading := by
  rw [reading_expr, reading_expr]
  apply (sum_like h _ _).bind
  intro t u r r' hsum htu hr
  have hle := left_le_of_sum hsum
  by_cases hquestion : r.kind = .question
  · obtain ⟨ts, hs⟩ := exists_ahead_of_kind (by decide) hquestion
    obtain ⟨b, us, hs', hrest⟩ := hr.next hs
    have hlt := left_lt_of_cons hs
    rw [afterSum, afterSum, hs, hs']
    apply (expr_like hrest).bind
    intro yes yes' r₁ r₁' hyes hlike h₁
    have hle₁ := left_le_of_reading hyes
    apply (expect_like h₁ .colon).bind
    intro _ _ r₂ r₂' hcolon _ h₂
    have hle₂ := left_le_of_reading hcolon
    apply (expr_like h₂).bind
    intro no no' r₃ r₃' _ hlike' h₃
    exact .ok (.of_forall₂ h₃.nextId rfl (.cons htu (.cons hlike (.cons hlike' .nil)))) h₃.tick
  · rw [afterSum_of_kind_ne hquestion, afterSum_of_kind_ne (hr.kind ▸ hquestion)]
    exact .ok htu hr
termination_by 5 * s.left + 3

theorem sum_like {s s' : Cursor} (h : s.Like s') (start start' : Nat) :
    Reading.Like (Term.Like fun _ => Eq) (sum start s) (sum start' s') := by
  apply (operand_like h).bind
  intro t u r r' hop htu hr
  have hle := left_le_of_reading hop
  exact addends_like hr start start' htu
termination_by 5 * s.left + 2

theorem addends_like {s s' : Cursor} (h : s.Like s') (start start' : Nat) {t u : Term}
    (htu : t.Like (fun _ => Eq) u) :
    Reading.Like (Term.Like fun _ => Eq) (addends start t s).reading
      (addends start' u s').reading := by
  by_cases hplus : s.kind = .plus
  · obtain ⟨ts, hs⟩ := exists_ahead_of_kind (by decide) hplus
    obtain ⟨b, us, hs', hrest⟩ := h.next hs
    have hlt := left_lt_of_cons hs
    rw [reading_addends, reading_addends, hs, hs']
    apply (operand_like hrest).bind
    intro next next' r r' hop hlike hr
    have hle := left_le_of_reading hop
    exact addends_like hr.tick start start'
      (.of_forall₂ hr.nextId rfl (.cons htu (.cons hlike .nil)))
  · rw [addends_of_kind_ne hplus, addends_of_kind_ne (h.kind ▸ hplus)]
    exact .ok htu h
termination_by 5 * s.left

theorem operand_like {s s' : Cursor} (h : s.Like s') :
    Reading.Like (Term.Like fun _ => Eq) (operand s).reading (operand s').reading := by
  rw [reading_operand, reading_operand]
  apply (atom_like h).bind
  intro t u r r' hatom htu hr
  have hle := left_le_of_reading hatom
  exact calls_like hr htu
termination_by 5 * s.left + 1

theorem calls_like {s s' : Cursor} (h : s.Like s') {t u : Term} (htu : t.Like (fun _ => Eq) u) :
    Reading.Like (Term.Like fun _ => Eq) (calls t s).reading (calls u s').reading := by
  by_cases hopen : s.kind = .leftParen
  · obtain ⟨ts, hs⟩ := exists_ahead_of_kind (by decide) hopen
    obtain ⟨b, us, hs', hrest⟩ := h.next hs
    have hlt := left_lt_of_cons hs
    rw [reading_calls, reading_calls, hs, hs']
    apply (args_like hrest).bind
    rintro ⟨as, close⟩ ⟨bs, close'⟩ r r' hargs hlike hr
    have hle := left_le_of_reading hargs
    exact calls_like hr.tick (.of_forall₂ hr.nextId rfl (.cons htu hlike))
  · rw [calls_of_kind_ne hopen, calls_of_kind_ne (h.kind ▸ hopen)]
    exact .ok htu h
termination_by 5 * s.left

theorem args_like {s s' : Cursor} (h : s.Like s') :
    Reading.Like (fun as bs => List.Forall₂ (Term.Like fun _ => Eq) as.1 bs.1) (args s).reading
      (args s').reading := by
  by_cases hclose : s.kind = .rightParen
  · obtain ⟨ts, hs⟩ := exists_ahead_of_kind (by decide) hclose
    obtain ⟨b, us, hs', hrest⟩ := h.next hs
    rw [reading_args, reading_args, hs, hs']
    exact .ok .nil hrest
  · rw [args_of_kind_ne hclose, args_of_kind_ne (h.kind ▸ hclose)]
    apply (expr_like h).bind
    intro t u r r' hexpr htu hr
    have hle := left_le_of_reading hexpr
    by_cases hcomma : r.kind = .comma
    · obtain ⟨ts, hs⟩ := exists_ahead_of_kind (by decide) hcomma
      obtain ⟨b, us, hs', hrest⟩ := hr.next hs
      have hlt := left_lt_of_cons hs
      rw [moreArgs, moreArgs, hs, hs']
      apply (args_like hrest).bind
      intro as bs r₁ r₁' _ hlike h₁
      exact .ok (.cons htu hlike) h₁
    · rw [moreArgs_of_kind_ne hcomma, moreArgs_of_kind_ne (hr.kind ▸ hcomma)]
      apply (expect_like hr .rightParen).bind
      intro _ _ r₁ r₁' _ _ h₁
      exact .ok (.cons htu .nil) h₁
termination_by 5 * s.left + 4

theorem atom_like {s s' : Cursor} (h : s.Like s') :
    Reading.Like (Term.Like fun _ => Eq) (atom s).reading (atom s').reading := by
  rw [reading_atom, reading_atom]
  cases hs : s.ahead with
  | nil =>
    rw [h.nil hs]
    exact .fail h _
  | cons t ts =>
    obtain ⟨k, a⟩ := t
    obtain ⟨b, us, hs', hrest⟩ := h.next hs
    have hlt := left_lt_of_cons hs
    rw [hs']
    cases k with
    | number v | bool v | ident x => exact .ok (.of_forall₂ h.nextId rfl .nil) hrest.tick
    | leftParen =>
      dsimp only
      rw [startsArrow_of_kinds hrest.kinds]
      apply Reading.Like.ite
      · apply (params_like hrest).bind
        intro ps qs r₁ r₁' hps hparams h₁
        have hle₁ := left_le_of_reading hps
        apply (expect_like h₁ .fatArrow).bind
        intro _ _ r₂ r₂' harrow _ h₂
        have hle₂ := left_le_of_reading harrow
        apply (expr_like h₂).bind
        intro t u r₃ r₃' _ htu h₃
        exact .ok (.of_forall₂ h₃.nextId (congrArg Head.func hparams) (.cons htu .nil)) h₃.tick
      · apply (expr_like hrest).bind
        intro t u r₁ r₁' _ htu h₁
        apply (expect_like h₁ .rightParen).bind
        intro close close' r₂ r₂' _ _ h₂
        exact .ok (htu.withSpan _ _) h₂
    | _ => exact .fail h _
termination_by 5 * s.left

end

/-! ## Programs -/

theorem statements_like {s s' : Cursor} (h : s.Like s') :
    Reading.Like (Term.Like fun _ => Eq) (statements s).reading (statements s').reading := by
  by_cases hconst : s.kind = .const
  · obtain ⟨ts, hs⟩ := exists_ahead_of_kind (by decide) hconst
    obtain ⟨b, us, hs', hrest⟩ := h.next hs
    have hlt := left_lt_of_cons hs
    rw [reading_statements, reading_statements, hs, hs']
    apply (expectName_like hrest).bind
    rintro x _ r₁ r₁' hname rfl h₁
    have hle₁ := left_le_of_reading hname
    apply (expect_like h₁ .equals).bind
    intro _ _ r₂ r₂' hequals _ h₂
    have hle₂ := left_le_of_reading hequals
    apply (expr_like h₂).bind
    intro init init' r₃ r₃' hinit hlike h₃
    have hle₃ := left_le_of_reading hinit
    apply (expect_like h₃ .semicolon).bind
    intro _ _ r₄ r₄' hsemi _ h₄
    have hle₄ := left_le_of_reading hsemi
    rw [constBody, constBody, ← h₄.kind]
    refine .ite ?_ ⟨.error rfl, h₄⟩
    apply (statements_like h₄).bind
    intro t u r₅ r₅' _ htu h₅
    exact .ok (.of_forall₂ h₅.nextId rfl (.cons hlike (.cons htu .nil))) h₅.tick
  · rw [statements_of_kind_ne hconst, statements_of_kind_ne (h.kind ▸ hconst)]
    apply (expr_like h).bind
    intro t u r r' hexpr htu hr
    have hle := left_le_of_reading hexpr
    by_cases hsemi : r.kind = .semicolon
    · obtain ⟨ts, hs⟩ := exists_ahead_of_kind (by decide) hsemi
      obtain ⟨b, us, hs', hrest⟩ := hr.next hs
      have hlt := left_lt_of_cons hs
      rw [moreStatements, moreStatements, hs, hs']
      dsimp only
      rw [seqRest, seqRest, ← hrest.kind]
      refine .ite ?_ (.ok htu hrest)
      apply (statements_like hrest).bind
      intro rest rest' r₁ r₁' _ hlike h₁
      exact .ok (.of_forall₂ h₁.nextId rfl (.cons htu (.cons hlike .nil))) h₁.tick
    · rw [moreStatements_of_kind_ne hsemi, moreStatements_of_kind_ne (hr.kind ▸ hsemi)]
      exact .ok htu hr
termination_by s.left

theorem program_like {s s' : Cursor} (h : s.Like s') :
    Reading.Like (Term.Like fun _ => Eq) (program s).reading (program s').reading := by
  rw [reading_program, reading_program]
  apply (statements_like h).bind
  intro t u r r' _ htu hr
  have hempty : r.ahead.isEmpty = r'.ahead.isEmpty := by
    simpa [Cursor.kinds] using congrArg List.isEmpty hr.kinds
  rw [finish, finish, hempty]
  exact .ite (.ok htu hr) (.fail hr _)

end Parse

theorem Cursor.ofTokens_like {ts us : List Token} (h : ts.map (·.kind) = us.map (·.kind)) :
    (ofTokens ts).Like (ofTokens us) := by
  have hkinds (ts : List Token) :
      (ofTokens ts).kinds = (ts.map (·.kind)).takeWhile (· != .eof) := by
    rw [List.takeWhile_map]
    rfl
  exact ⟨by rw [hkinds, hkinds, h], rfl⟩

/-- Tokens of the same kinds are parsed as the same term up to spans, or there is the same error up
to its span. -/
theorem parse_of_kinds {ts us : List Token} (h : ts.map (·.kind) = us.map (·.kind)) :
    ParseAgree (Term.Like fun _ => Eq) (Term.parse ts) (Term.parse us) :=
  (Parse.program_like (ofTokens_like h)).result

end ArrowLang
