import ArrowLang.Proofs.Grammar.Sound

/-!
# The parser reads what is in the grammar

Whatever some tokens write, the parser reads from them, if what comes after them does not extend it.
Sums and applications grow at their right end while the parser carries the part that it has read so
far, so a derivation of them is matched by the loop that is left to run after it.
-/

namespace ArrowLang

/-! ## Lookahead -/

namespace Grammar

open Parse

theorem Opens.startsStatement_kind {w : List Token.Kind} (h : Opens w) {ts : List Token}
    (hts : ts.map (·.kind) = w) (k : List Token) (e : Span) (i : Nat) :
    startsStatement (Cursor.kind ⟨ts ++ k, e, i⟩) = true ∧
      Cursor.kind ⟨ts ++ k, e, i⟩ ≠ .const := by
  cases h <;>
  · obtain ⟨a, us, rfl, -⟩ := exists_of_kinds_eq_cons hts
    exact ⟨rfl, by simp [Cursor.kind]⟩

theorem Opens.kind_ne_rightParen {w : List Token.Kind} (h : Opens w) {ts : List Token}
    (hts : ts.map (·.kind) = w) (k : List Token) (e : Span) (i : Nat) :
    Cursor.kind ⟨ts ++ k, e, i⟩ ≠ .rightParen := by
  intro hk
  have hstart := (h.startsStatement_kind hts k e i).1
  rw [hk] at hstart
  exact absurd hstart (by decide)

/-- An expression in parentheses is not taken for an arrow function. -/
theorem Opens.not_startsArrow {w : List Token.Kind} (h : Opens w) {ts : List Token}
    (hts : ts.map (·.kind) = w) (b : Span) (k : List Token) :
    ¬ startsArrow (ts ++ ⟨.rightParen, b⟩ :: k) = true := by
  rw [startsArrow_iff, List.map_append, hts]
  rintro (⟨v, hv⟩ | ⟨x, v, hv⟩)
  · cases h <;> simp at hv
  · cases h with
    | number | bool | leftParen | name => simp at hv
    | named hk =>
      obtain ⟨-, rfl, -⟩ : _ ∧ _ = Token.Kind.colon ∧ _ := by simpa using hv
      exact hk (by decide)

/-- Parameters with an arrow after them are taken for those of an arrow function. -/
theorem Params.startsArrow {w : List Token.Kind} {ps : List Param} (h : Params w ps)
    {ts : List Token} (hts : ts.map (·.kind) = w) (b c : Span) (k : List Token) :
    Parse.startsArrow (ts ++ ⟨.rightParen, b⟩ :: ⟨.fatArrow, c⟩ :: k) = true := by
  rw [startsArrow_iff, List.map_append, hts]
  cases h with
  | nil => exact .inl ⟨_, rfl⟩
  | last | cons => exact .inr ⟨_, _, rfl⟩

end Grammar

namespace Written

open Cursor Parse Grammar

/-! ## Types -/

mutual

theorem Annotation.reads {ts : List Token} {T : TypeExpr} : Annotation ts T → ∀ k e i,
    (typeExpr ⟨ts ++ k, e, i⟩).reading = ⟨.ok T, ⟨k, e, i⟩⟩
  | .boolean, k, e, i => by simp [reading_typeExpr]
  | .number, k, e, i => by simp [reading_typeExpr]
  | .function hps hann, k, e, i => by
    rw [reading_typeExpr]
    simp only [functionType, List.cons_append, List.append_assoc, hps.reads, expect_cons,
      hann.reads, Reading.bind_ok]

theorem Params.reads {ts : List Token} {ps : List ParamDecl} : Params ts ps → ∀ {b} k e i,
    (params ⟨ts ++ ⟨.rightParen, b⟩ :: k, e, i⟩).reading = ⟨.ok ps, ⟨k, e, i⟩⟩
  | .nil, b, k, e, i => by simp [reading_params]
  | .last hann, b, k, e, i => by
    rw [reading_params]
    simp only [someParams, paramType, moreParams, List.cons_append, expectName_cons, expect_cons,
      hann.reads, Reading.bind_ok]
    rfl
  | .cons hann hps, b, k, e, i => by
    rw [reading_params]
    simp only [someParams, paramType, moreParams, List.cons_append, List.append_assoc,
      expectName_cons, expect_cons, hann.reads, hps.reads, Reading.bind_ok]
    rfl

end

/-! ## Expressions -/

theorem start_span {ts : List Token} (h : Opens (ts.map (·.kind))) (k : List Token) (e : Span)
    (i : Nat) : (Cursor.span ⟨ts ++ k, e, i⟩).start = start ts :=
  start_eq_of_passes (r := ⟨k, e, i⟩) ⟨rfl, rfl⟩ (ne_nil_of_opens h)

mutual

theorem Expr.reads {i j : Nat} {ts : List Token} {t : Term} : Expr i ts t j →
    ∀ {k} e, Ends (Cursor.kind ⟨k, e, j⟩) → (expr ⟨ts ++ k, e, i⟩).reading = ⟨.ok t, ⟨k, e, j⟩⟩
  | .sum hsum, k, e, hk => by
    rw [reading_expr, start_span hsum.shape.opens, hsum.reads e ⟨hk.1, fun _ => hk⟩,
      addends_of_kind_ne hk.2.1]
    exact afterSum_of_kind_ne hk.2.2
  | .cond hsum hyes hno, k, e, hk => by
    rw [List.append_assoc, List.append_assoc, reading_expr, start_span hsum.shape.opens,
      hsum.reads e ⟨by simp [Cursor.kind], by simp⟩, addends_of_kind_ne (by simp [Cursor.kind])]
    simp only [Reading.bind_ok, afterSum, branches, List.cons_append]
    rw [hyes.reads e (by simp [Cursor.kind, Ends])]
    simp only [Reading.bind_ok, expect_cons, hno.reads e hk]
    rfl

/-- After a sum that is read so far, the operands that follow are left to read. -/
theorem Sum.reads {o : Bool} {i j : Nat} {ts : List Token} {t : Term} : Sum o i ts t j →
    ∀ {k} e, Stops o (Cursor.kind ⟨k, e, j⟩) →
      Parse.sum (start ts) ⟨ts ++ k, e, i⟩ = (addends (start ts) t ⟨k, e, j⟩).reading
  | .operand hop, k, e, hk => by rw [Parse.sum, hop.reads e hk, Reading.bind_ok]
  | .add hsum hop, k, e, hk => by
    rw [List.append_assoc, start_append (ne_nil_of_opens hsum.shape.opens),
      hsum.reads e ⟨by simp [Cursor.kind], by simp⟩, reading_addends]
    simp only [List.cons_append, hop.reads e hk, Reading.bind_ok]
    rfl

theorem Operand.reads {o : Bool} {i j : Nat} {ts : List Token} {t : Term} : Operand o i ts t j →
    ∀ {k} e, Stops o (Cursor.kind ⟨k, e, j⟩) →
      (operand ⟨ts ++ k, e, i⟩).reading = ⟨.ok t, ⟨k, e, j⟩⟩
  | .closed hpost, k, e, hk => by rw [hpost.reads, calls_of_kind_ne hk.1]
  | .arrow hps hbody, k, e, hk => by
    rw [List.append_assoc, reading_operand, reading_atom]
    simp only [arrow, List.cons_append, if_pos (hps.shape.startsArrow rfl _ _ _), hps.reads,
      expect_cons, hbody.reads e (hk.2 rfl), Reading.bind_ok]
    exact calls_of_kind_ne hk.1

/-- After an application that is read so far, the argument lists that follow are left to read. -/
theorem Postfix.reads {i j : Nat} {ts : List Token} {t : Term} : Postfix i ts t j → ∀ k e,
    (operand ⟨ts ++ k, e, i⟩).reading = (calls t ⟨k, e, j⟩).reading
  | .atom hatom, k, e => by rw [reading_operand, hatom.reads, Reading.bind_ok]
  | .call hpost hargs, k, e => by
    rw [List.append_assoc, List.append_assoc, hpost.reads, reading_calls]
    simp only [List.cons_append, List.nil_append, hargs.reads, Reading.bind_ok]
    rfl

theorem Atom.reads {i j : Nat} {ts : List Token} {t : Term} : Atom i ts t j → ∀ k e,
    (atom ⟨ts ++ k, e, i⟩).reading = ⟨.ok t, ⟨k, e, j⟩⟩
  | .number, k, e | .bool, k, e | .var, k, e => by rw [List.singleton_append, reading_atom]; rfl
  | .paren hexpr, k, e => by
    have hends (b : Span) (j : Nat) : Ends (Cursor.kind ⟨⟨.rightParen, b⟩ :: k, e, j⟩) := by
      simp [Cursor.kind, Ends]
    rw [List.append_assoc, reading_atom]
    simp only [parens, List.cons_append, List.nil_append,
      if_neg (hexpr.shape.opens.not_startsArrow rfl _ _), expect_cons, Reading.bind_ok,
      hexpr.reads e (hends _ _)]

theorem Args.reads {i j : Nat} {ts : List Token} {as : List Term} : Args i ts as j → ∀ {b} k e,
    (args ⟨ts ++ ⟨.rightParen, b⟩ :: k, e, i⟩).reading = ⟨.ok (as, b), ⟨k, e, j⟩⟩
  | .nil, b, k, e => by rw [List.nil_append, reading_args]
  | .last hexpr, b, k, e => by
    rw [args_of_kind_ne (hexpr.shape.opens.kind_ne_rightParen rfl _ _ _), someArgs,
      hexpr.reads e (by simp [Cursor.kind, Ends])]
    simp only [moreArgs, Reading.bind_ok, expect_cons]
  | .cons hexpr hargs, b, k, e => by
    rw [List.append_assoc, args_of_kind_ne (hexpr.shape.opens.kind_ne_rightParen rfl _ _ _),
      someArgs, hexpr.reads e (by simp [Cursor.kind, Ends])]
    simp only [moreArgs, List.cons_append, Reading.bind_ok, hargs.reads]

end

/-! ## Statements -/

theorem Statements.startsStatement_kind {i j : Nat} {ts : List Token} {t : Term}
    (h : Statements i ts t j) (k : List Token) (e : Span) (l : Nat) :
    startsStatement (Cursor.kind ⟨ts ++ k, e, l⟩) = true := by
  cases h with
  | last hexpr => exact (hexpr.shape.opens.startsStatement_kind rfl k e l).1
  | seq hexpr =>
    rw [List.append_assoc]
    exact (hexpr.shape.opens.startsStatement_kind rfl _ e l).1
  | const => rfl

theorem Statements.reads {i j : Nat} {ts us : List Token} {t : Term} (h : Statements i ts t j)
    (hus : Trailing us) {k : List Token} (e : Span) (hk : Finishes us (Cursor.kind ⟨k, e, j⟩)) :
    (statements ⟨ts ++ (us ++ k), e, i⟩).reading = ⟨.ok t, ⟨k, e, j⟩⟩ := by
  induction h with
  | last hexpr =>
    rw [statements_of_kind_ne (hexpr.shape.opens.startsStatement_kind rfl _ _ _).2, exprStatements]
    obtain rfl | ⟨a, rfl⟩ := hus
    · have hends := hk.1 rfl
      rw [List.nil_append, hexpr.reads e hends.1, Reading.bind_ok]
      exact moreStatements_of_kind_ne hends.2
    · rw [hexpr.reads e (by simp [Cursor.kind, Ends])]
      simp [moreStatements, seqRest, hk.2 (by simp)]
  | seq hexpr hrest ih =>
    rw [List.append_assoc, statements_of_kind_ne
      (hexpr.shape.opens.startsStatement_kind rfl _ _ _).2, exprStatements,
      hexpr.reads e (by simp [Cursor.kind, Ends]), start_span hexpr.shape.opens]
    simp only [moreStatements, seqRest, List.cons_append, Reading.bind_ok,
      if_pos (hrest.startsStatement_kind _ e _), ih hk]
    rfl
  | const hexpr hrest ih =>
    rw [List.append_assoc, reading_statements]
    simp only [constStatements, List.cons_append, expectName_cons, expect_cons, Reading.bind_ok]
    rw [hexpr.reads e (by simp [Cursor.kind, Ends])]
    simp only [constBody, expect_cons, Reading.bind_ok,
      if_pos (hrest.startsStatement_kind _ e _), ih hk]
    rfl

theorem Statements.reads_program {i j : Nat} {ts us : List Token} {t : Term}
    (h : Statements i ts t j) (hus : Trailing us) (e : Span) :
    (program ⟨ts ++ us, e, i⟩).reading = ⟨.ok t, ⟨[], e, j⟩⟩ := by
  have hread := h.reads hus (k := []) e ⟨fun _ => by simp [Cursor.kind, Ends], fun _ => rfl⟩
  rw [List.append_nil] at hread
  rw [reading_program, hread]
  rfl

end Written

namespace Grammar

open Token Cursor Parse

/-! ## Programs -/

theorem takeWhile_append_of_eof_not_mem {ts : List Token} (h : .eof ∉ ts.map (·.kind))
    (us : List Token) : (ts ++ us).takeWhile (·.kind != .eof) =
      ts ++ us.takeWhile (·.kind != .eof) := by
  refine List.takeWhile_append_of_pos fun t ht => ?_
  simp only [bne_iff_ne]
  exact fun he => h (List.mem_map.2 ⟨t, ht, he⟩)

theorem find?_eof_eq_none {ts : List Token} (h : .eof ∉ ts.map (·.kind)) :
    ts.find? (·.kind == .eof) = none := by
  simpa using h

/-- The tokens ahead are those before the first end of file. -/
theorem ofTokens_append_eof {ts : List Token} (h : .eof ∉ ts.map (·.kind)) (a : Span)
    (us : List Token) : ofTokens (ts ++ ⟨.eof, a⟩ :: us) = ⟨ts, a, 0⟩ := by
  simp [ofTokens, takeWhile_append_of_eof_not_mem h, List.find?_append, find?_eof_eq_none h]

theorem exists_ofTokens {tokens : List Token} {w : List Kind}
    (h : tokens.map (·.kind) = w ++ [.eof]) (hw : .eof ∉ w) : ∃ ts a,
      tokens = ts ++ [⟨.eof, a⟩] ∧ ts.map (·.kind) = w ∧ ofTokens tokens = ⟨ts, a, 0⟩ := by
  obtain ⟨ts, a, us, rfl, rfl, hus⟩ := exists_of_kinds_eq_append_cons h
  obtain rfl := List.map_eq_nil_iff.1 hus
  exact ⟨ts, a, rfl, rfl, ofTokens_append_eof hw a []⟩

/-- Tokens that end with the only end of file parse to a term of some shape exactly if their kinds
derive the shape. -/
theorem parse_iff_statements {tokens : List Token} {w : List Kind}
    (h : tokens.map (·.kind) = w ++ [.eof]) (hw : .eof ∉ w) {t : Shape} :
    (∃ u, Term.parse tokens = .ok u ∧ u.shape = t) ↔ Statements w t := by
  obtain ⟨ts, a, rfl, rfl, hcursor⟩ := exists_ofTokens h hw
  rw [Term.parse, hcursor]
  constructor
  · rintro ⟨u, hu, rfl⟩
    obtain ⟨us, vs, rfl, hvs, hstmts⟩ := program_written
      (r := (program ⟨ts, a, 0⟩).rest) (by rw [Outcome.reading, hu])
    exact hstmts.shape hvs
  · intro hstmts
    obtain ⟨us, vs, u, j, rfl, hvs, hwritten, rfl⟩ := hstmts.written rfl 0
    exact ⟨u, congrArg Reading.result (hwritten.reads_program hvs a), rfl⟩

theorem Statements.shape_unique {w : List Kind} {t u : Shape} (h : Statements w t)
    (g : Statements w u) : t = u := by
  -- the parser is a function, and some tokens have these kinds
  let ts : List Token := w.map fun k => ⟨k, .zero⟩
  have hts : ts.map (·.kind) = w := by simp [ts, Function.comp_def]
  obtain ⟨us, vs, a, i, hus, hvs, ha, rfl⟩ := h.written hts 0
  obtain ⟨us', vs', b, j, hus', hvs', hb, rfl⟩ := g.written hts 0
  have hread := ha.reads_program hvs .zero
  rw [← hus, hus', hb.reads_program hvs' .zero] at hread
  cases hread
  rfl

/-- The tree of a program is the one that precedence prescribes, and no tokens have two. -/
theorem parse_by_precedence (w : List Kind) (hw : .eof ∉ w) (tokens : List Token)
    (h : tokens.map (·.kind) = w ++ [.eof]) :
    (∀ t : Shape, (∃ u, Term.parse tokens = .ok u ∧ u.shape = t) ↔ Statements w t) ∧
      ∀ (v : List Kind) (t u : Shape), Statements v t → Statements v u → t = u :=
  ⟨fun _ => parse_iff_statements h hw, fun _ _ _ => Statements.shape_unique⟩

/-- `a + b(c) ? (x: number) => x : d` is a conditional of a sum, with an arrow function in it. -/
theorem parse_by_precedence_mixed :
    ∃ t, Term.parse ([.ident "a", .plus, .ident "b", .leftParen, .ident "c", .rightParen, .question,
      .leftParen, .ident "x", .colon, .ident "number", .rightParen, .fatArrow, .ident "x", .colon,
      .ident "d", .eof].map fun k => ⟨k, .zero⟩) = .ok t ∧
      t.shape = .cond (.add (.var "a") (.call (.var "b") [.var "c"]))
        (.func [⟨"x", .number⟩] (.var "x")) (.var "d") :=
  have name (x : String) : Postfix [.ident x] (.var x) := .atom .var
  have expr (x : String) : Expr [.ident x] (.var x) := .sum (.operand (.closed (name x)))
  ((parse_by_precedence [.ident "a", .plus, .ident "b", .leftParen, .ident "c", .rightParen,
    .question, .leftParen, .ident "x", .colon, .ident "number", .rightParen, .fatArrow, .ident "x",
    .colon, .ident "d"] (by decide) _ rfl).1 _).2
    (.last (Expr.cond (Sum.add (.operand (.closed (name "a")))
      (.closed (.call (name "b") (.last (expr "c")))))
      (.sum (.operand (.arrow (.last .number) (expr "x")))) (expr "d")))

end Grammar

end ArrowLang
