import ArrowLang.Proofs.Grammar.Complete

/-!
# The plain grammar

`Derives` is the context-free grammar that readers of the language are given. It says nothing of
precedence and is ambiguous, yet it has the same words as the grammar by layers: an expression can
be extended at its right end wherever a sum can (`Expr.append`), since what it ends with takes the
extension over.
-/

namespace ArrowLang.Grammar

open Token

/-- The nonterminals. -/
inductive Symbol where
  | program
  | stmts
  | expr
  /-- One or more expressions with commas between them. -/
  | exprs
  | args
  /-- One or more parameters with commas between them. -/
  | decls
  | params
  | type

inductive Derives : Symbol → List Kind → Prop where
  | program {w} : Derives .stmts w → Derives .program w
  | const {x u v} : Derives .expr u → Derives .stmts v →
      Derives .stmts (.const :: .ident x :: .equals :: u ++ .semicolon :: v)
  | last {w} : Derives .expr w → Derives .stmts w
  | trailing {w} : Derives .expr w → Derives .stmts (w ++ [.semicolon])
  | seq {u v} : Derives .expr u → Derives .stmts v → Derives .stmts (u ++ .semicolon :: v)
  | number {v} : Derives .expr [.number v]
  | bool {v} : Derives .expr [.bool v]
  | ident {x} : Derives .expr [.ident x]
  | paren {w} : Derives .expr w → Derives .expr (.leftParen :: w ++ [.rightParen])
  | arrow {u v} : Derives .params u → Derives .expr v →
      Derives .expr (.leftParen :: u ++ .rightParen :: .fatArrow :: v)
  | call {u v} : Derives .expr u → Derives .args v →
      Derives .expr (u ++ .leftParen :: v ++ [.rightParen])
  | add {u v} : Derives .expr u → Derives .expr v → Derives .expr (u ++ .plus :: v)
  | cond {u v w} : Derives .expr u → Derives .expr v → Derives .expr w →
      Derives .expr (u ++ .question :: v ++ .colon :: w)
  | oneExpr {w} : Derives .expr w → Derives .exprs w
  | moreExprs {u v} : Derives .expr u → Derives .exprs v → Derives .exprs (u ++ .comma :: v)
  | noArgs : Derives .args []
  | args {w} : Derives .exprs w → Derives .args w
  | argsComma {w} : Derives .exprs w → Derives .args (w ++ [.comma])
  | oneDecl {x w} : Derives .type w → Derives .decls (.ident x :: .colon :: w)
  | moreDecls {x u v} : Derives .type u → Derives .decls v →
      Derives .decls (.ident x :: .colon :: u ++ .comma :: v)
  | noParams : Derives .params []
  | params {w} : Derives .decls w → Derives .params w
  | paramsComma {w} : Derives .decls w → Derives .params (w ++ [.comma])
  | booleanType : Derives .type [.ident "boolean"]
  | numberType : Derives .type [.ident "number"]
  | functionType {u v} : Derives .params u → Derives .type v →
      Derives .type (.leftParen :: u ++ .rightParen :: .fatArrow :: v)

/-! ## From layers to the plain grammar -/

theorem Derives.cons_args {u v : List Kind} (hu : Derives .expr u) (hv : Derives .args v) :
    Derives .args (u ++ .comma :: v) := by
  cases hv with
  | noArgs => exact .argsComma (.oneExpr hu)
  | args h => exact .args (.moreExprs hu h)
  | argsComma h => simpa using argsComma (.moreExprs hu h)

theorem Derives.cons_params {x : String} {u v : List Kind} (hu : Derives .type u)
    (hv : Derives .params v) : Derives .params (.ident x :: .colon :: u ++ .comma :: v) := by
  cases hv with
  | noParams => exact .paramsComma (.oneDecl hu)
  | params h => exact .params (.moreDecls hu h)
  | paramsComma h => simpa using paramsComma (.moreDecls hu h)

mutual

theorem Annotation.derives {w : List Kind} {T : Ty} : Annotation w T → Derives .type w
  | .boolean => .booleanType
  | .number => .numberType
  | .function hps h => .functionType hps.derives h.derives

theorem Params.derives {w : List Kind} {ps : List Param} : Params w ps → Derives .params w
  | .nil => .noParams
  | .last h => .params (.oneDecl h.derives)
  | .cons h hps => .cons_params h.derives hps.derives

end

mutual

theorem Expr.derives {w : List Kind} {t : Shape} : Expr w t → Derives .expr w
  | .sum h => h.derives
  | .cond hc hy hn => .cond hc.derives hy.derives hn.derives

theorem Sum.derives {o : Bool} {w : List Kind} {t : Shape} : Sum o w t → Derives .expr w
  | .operand h => h.derives
  | .add hs h => .add hs.derives h.derives

theorem Operand.derives {o : Bool} {w : List Kind} {t : Shape} : Operand o w t → Derives .expr w
  | .closed h => h.derives
  | .arrow hps h => .arrow hps.derives h.derives

theorem Postfix.derives {w : List Kind} {t : Shape} : Postfix w t → Derives .expr w
  | .atom h => h.derives
  | .call h has => .call h.derives has.derives

theorem Atom.derives {w : List Kind} {t : Shape} : Atom w t → Derives .expr w
  | .number => .number
  | .bool => .bool
  | .var => .ident
  | .paren h => .paren h.derives

theorem Args.derives {w : List Kind} {ts : List Shape} : Args w ts → Derives .args w
  | .nil => .noArgs
  | .last h => .args (.oneExpr h.derives)
  | .cons h has => .cons_args h.derives has.derives

end

theorem Statements.derives {w : List Kind} {t : Shape} (h : Statements w t) :
    Derives .stmts w := by
  induction h with
  | last h => exact .last h.derives
  | trailing h => exact .trailing h.derives
  | seq h _ ih => exact .seq h.derives ih
  | const h _ ih => exact .const h.derives ih

/-! ## From the plain grammar to layers -/

/-! Where every sum can go on with some tokens, every expression can. The recursion goes down the
right end of the expression, through else branches and bodies of arrow functions, to the sum at its
end. -/

mutual

theorem Expr.append {x : List Kind} (hx : ∀ u t, Sum false u t → ∃ t', Expr (u ++ x) t')
    {w : List Kind} {t : Shape} : Expr w t → ∃ t', Expr (w ++ x) t'
  | .sum (o := false) h => hx w t h
  | .sum (o := true) h => by
    obtain ⟨t', h'⟩ := h.append hx
    exact ⟨t', .sum h'⟩
  | .cond hc hy hn => by
    obtain ⟨n, hn'⟩ := hn.append hx
    exact ⟨_, by simpa using Expr.cond hc hy hn'⟩

theorem Sum.append {x : List Kind} (hx : ∀ u t, Sum false u t → ∃ t', Expr (u ++ x) t')
    {w : List Kind} {t : Shape} : Sum true w t → ∃ t', Sum true (w ++ x) t'
  | .operand h => by
    obtain ⟨t', h'⟩ := h.append hx
    exact ⟨t', .operand h'⟩
  | .add hs h => by
    obtain ⟨t', h'⟩ := h.append hx
    exact ⟨_, by simpa using Sum.add hs h'⟩

theorem Operand.append {x : List Kind} (hx : ∀ u t, Sum false u t → ∃ t', Expr (u ++ x) t')
    {w : List Kind} {t : Shape} : Operand true w t → ∃ t', Operand true (w ++ x) t'
  | .arrow hps hb => by
    obtain ⟨b, hb'⟩ := hb.append hx
    exact ⟨_, by simpa using Operand.arrow hps hb'⟩

end

/-- An argument list goes to the last operand. -/
theorem Expr.call {u v : List Kind} {f : Shape} {as : List Shape} (h : Expr u f)
    (hargs : Args v as) : ∃ t, Expr (u ++ .leftParen :: v ++ [.rightParen]) t := by
  rw [List.append_assoc]
  refine h.append fun u t hsum => ?_
  rw [← List.append_assoc]
  cases hsum with
  | operand hop =>
    cases hop with
    | closed hpost => exact ⟨_, .sum (.operand (.closed (.call hpost hargs)))⟩
  | add hs hop =>
    cases hop with
    | closed hpost => exact ⟨_, .sum (by simpa using Sum.add hs (.closed (.call hpost hargs)))⟩

/-- Two sums make one. -/
theorem Sum.append_sum {o : Bool} {u v : List Kind} {s t : Shape} (h : Sum false u s) :
    Sum o v t → ∃ t', Sum o (u ++ .plus :: v) t'
  | .operand hop => ⟨_, .add h hop⟩
  | .add hsum hop => by
    obtain ⟨t', h'⟩ := h.append_sum hsum
    exact ⟨_, by simpa using add h' hop⟩

theorem Expr.add {u v : List Kind} {s t : Shape} (hu : Expr u s) (hv : Expr v t) :
    ∃ t', Expr (u ++ .plus :: v) t' := by
  refine hu.append fun u t hsum => ?_
  cases hv with
  | sum h =>
    obtain ⟨t', h'⟩ := hsum.append_sum h
    exact ⟨t', .sum h'⟩
  | cond hc hy hn =>
    obtain ⟨c, hc'⟩ := hsum.append_sum hc
    exact ⟨_, by simpa using Expr.cond hc' hy hn⟩

theorem Expr.branch {u v w : List Kind} {c y n : Shape} (hu : Expr u c) (hv : Expr v y)
    (hw : Expr w n) : ∃ t, Expr (u ++ .question :: v ++ .colon :: w) t := by
  rw [List.append_assoc]
  refine hu.append fun u t hsum => ?_
  exact ⟨_, by simpa using Expr.cond hsum hv hw⟩

/-- What a word of the plain grammar is in the grammar by layers. A list in which commas only
separate can have one more comma at its end. -/
def Layered : Symbol → List Kind → Prop
  | .program, w | .stmts, w => ∃ t, Statements w t
  | .expr, w => ∃ t, Expr w t
  | .exprs, w => (∃ ts, Args w ts) ∧ ∃ ts, Args (w ++ [.comma]) ts
  | .args, w => ∃ ts, Args w ts
  | .decls, w => (∃ ps, Params w ps) ∧ ∃ ps, Params (w ++ [.comma]) ps
  | .params, w => ∃ ps, Params w ps
  | .type, w => ∃ T, Annotation w T

theorem Derives.layered {N : Symbol} {w : List Kind} (h : Derives N w) : Layered N w := by
  induction h with
  | program _ ih => exact ih
  | const _ _ ihi ihr =>
    obtain ⟨i, hi⟩ := ihi
    obtain ⟨r, hr⟩ := ihr
    exact ⟨_, .const hi hr⟩
  | last _ ih =>
    obtain ⟨t, h⟩ := ih
    exact ⟨t, .last h⟩
  | trailing _ ih =>
    obtain ⟨t, h⟩ := ih
    exact ⟨t, .trailing h⟩
  | seq _ _ ihb ihr =>
    obtain ⟨b, hb⟩ := ihb
    obtain ⟨r, hr⟩ := ihr
    exact ⟨_, .seq hb hr⟩
  | number => exact ⟨_, .sum (.operand (.closed (.atom .number)))⟩
  | bool => exact ⟨_, .sum (.operand (.closed (.atom .bool)))⟩
  | ident => exact ⟨_, .sum (.operand (.closed (.atom .var)))⟩
  | paren _ ih =>
    obtain ⟨t, h⟩ := ih
    exact ⟨t, .sum (.operand (.closed (.atom (.paren h))))⟩
  | arrow _ _ ihps ihb =>
    obtain ⟨ps, hps⟩ := ihps
    obtain ⟨b, hb⟩ := ihb
    exact ⟨_, .sum (.operand (.arrow hps hb))⟩
  | call _ _ ihf iha =>
    obtain ⟨f, hf⟩ := ihf
    obtain ⟨as, has⟩ := iha
    exact hf.call has
  | add _ _ ihl ihr =>
    obtain ⟨l, hl⟩ := ihl
    obtain ⟨r, hr⟩ := ihr
    exact hl.add hr
  | cond _ _ _ ihc ihy ihn =>
    obtain ⟨c, hc⟩ := ihc
    obtain ⟨y, hy⟩ := ihy
    obtain ⟨n, hn⟩ := ihn
    exact hc.branch hy hn
  | oneExpr _ ih =>
    obtain ⟨t, h⟩ := ih
    exact ⟨⟨_, .last h⟩, _, .cons h .nil⟩
  | moreExprs _ _ ih ihs =>
    obtain ⟨t, h⟩ := ih
    obtain ⟨⟨ts, hts⟩, us, hus⟩ := ihs
    exact ⟨⟨_, .cons h hts⟩, _, by simpa using Args.cons h hus⟩
  | noArgs => exact ⟨_, .nil⟩
  | args _ ih => exact ih.1
  | argsComma _ ih => exact ih.2
  | oneDecl _ ih =>
    obtain ⟨T, h⟩ := ih
    exact ⟨⟨_, .last h⟩, _, .cons h .nil⟩
  | moreDecls _ _ ih ihs =>
    obtain ⟨T, h⟩ := ih
    obtain ⟨⟨ps, hps⟩, qs, hqs⟩ := ihs
    exact ⟨⟨_, .cons h hps⟩, _, by simpa using Params.cons h hqs⟩
  | noParams => exact ⟨_, .nil⟩
  | params _ ih => exact ih.1
  | paramsComma _ ih => exact ih.2
  | booleanType => exact ⟨_, .boolean⟩
  | numberType => exact ⟨_, .number⟩
  | functionType _ _ ihps ih =>
    obtain ⟨ps, hps⟩ := ihps
    obtain ⟨T, h⟩ := ih
    exact ⟨_, .function hps h⟩

/-- The parser accepts exactly the words of the plain grammar. -/
theorem parse_isOk_iff_derives (w : List Kind) (hw : .eof ∉ w) (tokens : List Token)
    (h : tokens.map (·.kind) = w ++ [.eof]) :
    (∃ t, Term.parse tokens = .ok t) ↔ Derives .program w := by
  constructor
  · rintro ⟨t, ht⟩
    exact .program ((parse_iff_statements h hw).1 ⟨t, ht, rfl⟩).derives
  · intro hder
    obtain ⟨t, hstmts⟩ := hder.layered
    obtain ⟨u, hu, -⟩ := (parse_iff_statements h hw).2 hstmts
    exact ⟨u, hu⟩

/-- `() => a + b` is accepted although the arrow function is the left operand in its derivation. -/
theorem parse_isOk_arrow_plus :
    ∃ t, Term.parse ([.leftParen, .rightParen, .fatArrow, .ident "a", .plus, .ident "b", .eof].map
      fun k => ⟨k, .zero⟩) = .ok t :=
  (parse_isOk_iff_derives [.leftParen, .rightParen, .fatArrow, .ident "a", .plus, .ident "b"]
    (by decide) _ rfl).2 (.program (.last (.add (.arrow .noParams .ident) .ident)))

end ArrowLang.Grammar
