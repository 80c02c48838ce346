import ArrowLang.Proofs.Tape

/-!
# The tape follows the cursor

A cursor is a place on a tape: the tokens ahead of it are those from the position on, up to the
first end of file. Each function of the parser by position does on the tape what its counterpart
does with the cursor, so the position is always that of a token, it never gets past the first end
of file, and how deep calls nest is bounded by how far that is away.
-/

namespace ArrowLang

open Cursor Outcome

variable {α β : Type} {tokens : List Token}

/-! ## Places on a tape -/

namespace Tape

/-- The position of the first end of file; if there is none, that of one added at the end. -/
def firstEof (tokens : List Token) : Nat := tokens.findIdx (·.kind == .eof)

theorem firstEof_eq_length (h : ∀ t ∈ tokens, t.kind ≠ .eof) :
    firstEof tokens = tokens.length :=
  List.findIdx_eq_length.2 fun t ht => by simpa using h t ht

theorem firstEof_append {before after : List Token} {eof : Span}
    (h : ∀ t ∈ before, t.kind ≠ .eof) :
    firstEof (before ++ ⟨.eof, eof⟩ :: after) = before.length := by
  have hnone : before.findIdx (·.kind == .eof) = before.length := firstEof_eq_length h
  rw [firstEof, List.findIdx_append, hnone, if_neg (Nat.lt_irrefl _)]
  simp [List.findIdx_cons]

end Tape

namespace Cursor

/-- The cursor is before the first end of file or at it. -/
def On (tokens : List Token) (c : Cursor) : Prop :=
  ∃ before after, tokens = before ++ (c.ahead ++ ⟨.eof, c.eof⟩ :: after) ∧
    ∀ t ∈ before ++ c.ahead, t.kind ≠ .eof

/-- The tape whose position is at the cursor. -/
def tape (tokens : List Token) (c : Cursor) : Tape :=
  ⟨tokens, Tape.firstEof tokens - c.left, c.nextId⟩

variable {c : Cursor}

/-- What is at a cursor and after it is at the position of its tape and after that. -/
theorem On.exists_drop (h : c.On tokens) : c.left ≤ Tape.firstEof tokens ∧
    ∃ after, tokens.drop (c.tape tokens).pos = c.ahead ++ ⟨.eof, c.eof⟩ :: after := by
  obtain ⟨before, after, htokens, heof⟩ := h
  have hfirst : Tape.firstEof tokens = before.length + c.left := by
    rw [htokens, ← List.append_assoc, Tape.firstEof_append heof, List.length_append, left]
  refine ⟨by omega, after, ?_⟩
  rw [tape, hfirst, Nat.add_sub_cancel, htokens, List.drop_left]

theorem On.next {t : Token} {ts : List Token} (h : c.On tokens) (hc : c.ahead = t :: ts) :
    Cursor.On tokens { c with ahead := ts } := by
  obtain ⟨before, after, htokens, heof⟩ := h
  refine ⟨before ++ [t], after, by simpa [hc] using htokens, ?_⟩
  simpa [hc] using heof

theorem On.kind_ne_eof {t : Token} {ts : List Token} (h : c.On tokens) (hc : c.ahead = t :: ts) :
    t.kind ≠ .eof := by
  obtain ⟨before, after, -, heof⟩ := h
  exact heof t (by simp [hc])

/-- The position is that of a token, the one at the cursor. -/
theorem On.getElem?_pos (h : c.On tokens) :
    tokens[(c.tape tokens).pos]? = some ⟨c.kind, c.span⟩ := by
  obtain ⟨-, after, hdrop⟩ := h.exists_drop
  rw [← Nat.add_zero (c.tape tokens).pos, ← List.getElem?_drop, hdrop]
  cases hc : c.ahead <;> simp [kind, span, hc]

theorem On.pos_next {t : Token} {ts : List Token} (h : c.On tokens) (hc : c.ahead = t :: ts) :
    Cursor.tape tokens { c with ahead := ts } =
      { c.tape tokens with pos := (c.tape tokens).pos + 1 } := by
  have hle := h.exists_drop.1
  have hleft : c.left = ts.length + 1 := by rw [left, hc, List.length_cons]
  have hpos : Tape.firstEof tokens - ts.length = Tape.firstEof tokens - c.left + 1 := by omega
  rw [tape, tape, ← hpos]
  rfl

end Cursor

/-! ## The layers behind an atom -/

namespace Parse

/-- What follows the first atom of an expression that starts at `start`. -/
def afterAtom (start : Nat) (left : Term) (c : Cursor) : Reading Term :=
  (calls left c).reading.bind fun operand r =>
  (addends start operand r).reading.bind (afterSum start)

theorem reading_expr_eq_bind (c : Cursor) :
    (expr c).reading = (atom c).reading.bind (afterAtom c.span.start) := by
  rw [reading_expr, sum, reading_operand, Reading.bind_assoc, Reading.bind_assoc]
  rfl

/-- The call of `callee` that ends with an argument list. -/
def callOf (callee : Term) (c : Cursor) : Reading Term :=
  (args c).reading.bind fun (as, close) r =>
  ⟨.ok (.call ⟨r.nextId, callee.span.join close⟩ callee as), r.tick⟩

theorem calls_open {c : Cursor} {a : Span} {ts : List Token} (hc : c.ahead = ⟨.leftParen, a⟩ :: ts)
    (callee : Term) : (calls callee c).reading =
      (callOf callee { c with ahead := ts }).bind fun t r => (calls t r).reading := by
  rw [reading_calls, hc, callOf, Reading.bind_assoc]
  rfl

theorem left_le_of_callOf {callee t : Term} {c r : Cursor} (h : callOf callee c = ⟨.ok t, r⟩) :
    r.left ≤ c.left := by
  obtain ⟨found, q, hargs, heq⟩ := Reading.bind_eq_ok_iff.1 h
  cases heq
  rw [left_tick]
  exact left_le_of_reading hargs

theorem afterAtom_of_ne {start : Nat} {left : Term} {c : Cursor} (h : c.kind ≠ .leftParen) :
    afterAtom start left c = (addends start left c).reading.bind (afterSum start) := by
  rw [afterAtom, calls_of_kind_ne h, Reading.bind_ok]

theorem afterAtom_of_ends {start : Nat} {left : Term} {c : Cursor} (h : Grammar.Ends c.kind) :
    afterAtom start left c = ⟨.ok left, c⟩ := by
  rw [afterAtom_of_ne h.1, addends_of_kind_ne h.2.1, Reading.bind_ok, afterSum_of_kind_ne h.2.2]

end Parse

/-! ## Runs -/

theorem Reading.bind_pure (y : Reading α) : (y.bind fun a r => ⟨.ok a, r⟩) = y := by
  obtain ⟨result, r⟩ := y
  cases result <;> rfl

namespace Tape

/-- From the cursor `c` the parser `x` comes to what `y` reads, and to the same place. -/
structure Runs (tokens : List Token) (x : Parser α) (c : Cursor) (y : Reading α) : Prop where
  eq_some : x (c.tape tokens) = some (y.result, y.rest.tape tokens)
  on : y.rest.On tokens

variable {c : Cursor} {x : Parser α} {f : α → Parser β}

theorem bind_of_ok {s s' : Tape} {a : α} (h : x s = some (.ok a, s')) : (x >>= f) s = f a s' := by
  change Option.bind (x s) _ = _
  rw [h]
  rfl

theorem bind_of_error {s s' : Tape} {e : ParseError} (h : x s = some (.error e, s')) :
    (x >>= f) s = some (.error e, s') := by
  change Option.bind (x s) _ = _
  rw [h]
  rfl

namespace Runs

theorem pure (h : c.On tokens) (a : α) : Runs tokens (Pure.pure a) c ⟨.ok a, c⟩ := ⟨rfl, h⟩

theorem throw (h : c.On tokens) (e : ParseError) :
    Runs tokens (MonadExcept.throw e : Parser α) c ⟨.error e, c⟩ := ⟨rfl, h⟩

theorem fail {k : Token.Kind} {a : Span} (h : c.On tokens) (hk : c.kind = k) (ha : c.span = a)
    (wanted : Expectation) :
    Runs tokens (MonadExcept.throw ⟨.unexpected wanted k, a⟩ : Parser α) c
      (c.fail wanted).reading := by
  subst hk ha
  exact throw h _

theorem ite {p : Prop} [Decidable p] {x x' : Parser α} {y y' : Reading α} (h : Runs tokens x c y)
    (h' : Runs tokens x' c y') :
    Runs tokens (if p then x else x') c (if p then y else y') := by
  split
  · exact h
  · exact h'

theorem bind {y : Reading α} {g : α → Cursor → Reading β} (hx : Runs tokens x c y)
    (hf : ∀ a r, y = ⟨.ok a, r⟩ → r.On tokens → Runs tokens (f a) r (g a r)) :
    Runs tokens (x >>= f) c (y.bind g) := by
  obtain ⟨result, r⟩ := y
  obtain ⟨hx, hr⟩ := hx
  cases result with
  | error e => exact ⟨bind_of_error hx, hr⟩
  | ok a =>
    obtain ⟨hfa, hrest⟩ := hf a r rfl hr
    exact ⟨(bind_of_ok hx).trans hfa, hrest⟩

/-- Goes on after what cannot fail. -/
theorem bind_ok {a : α} {r : Cursor} {y : Reading β} (hx : Runs tokens x c ⟨.ok a, r⟩)
    (hf : r.On tokens → Runs tokens (f a) r y) : Runs tokens (x >>= f) c y := by
  obtain ⟨hfa, hrest⟩ := hf hx.on
  exact ⟨(bind_of_ok hx.eq_some).trans hfa, hrest⟩

/-- Reads the token at the position. -/
theorem current_bind {f : Token → Parser β} {y : Reading β} (h : c.On tokens)
    (hf : Runs tokens (f ⟨c.kind, c.span⟩) c y) : Runs tokens (current >>= f) c y := by
  have hcurrent : current (c.tape tokens) = some (.ok ⟨c.kind, c.span⟩, c.tape tokens) := by
    change Option.map _ tokens[(c.tape tokens).pos]? = _
    rw [h.getElem?_pos]
    rfl
  exact ⟨(bind_of_ok hcurrent).trans hf.eq_some, hf.on⟩

/-- Moves past a token that is not the end of the file. -/
theorem advance {k : Token.Kind} {a : Span} {ts : List Token} (h : c.On tokens)
    (hc : c.ahead = ⟨k, a⟩ :: ts) :
    Runs tokens Tape.advance c ⟨.ok a, { c with ahead := ts }⟩ := by
  have hk := h.kind_ne_eof hc
  refine current_bind h ⟨?_, h.next hc⟩
  have hspan := span_of_ahead hc
  rw [kind_of_ahead hc, hspan, if_pos hk, h.pos_next hc]
  rfl

theorem node (h : c.On tokens) (span : Span) (build : Node → Term) :
    Runs tokens (Tape.node span build) c ⟨.ok (build ⟨c.nextId, span⟩), c.tick⟩ :=
  ⟨rfl, h⟩

theorem expect_cons {k : Token.Kind} {a : Span} {ts : List Token} (h : c.On tokens)
    (hc : c.ahead = ⟨k, a⟩ :: ts) :
    Runs tokens (Tape.expect k) c ⟨.ok a, { c with ahead := ts }⟩ := by
  refine current_bind h ?_
  rw [if_pos (kind_of_ahead hc)]
  exact advance h hc

theorem expect {k : Token.Kind} (hk : k ≠ .eof) (h : c.On tokens) :
    Runs tokens (Tape.expect k) c (c.expect k).reading := by
  by_cases hkind : c.kind = k
  · obtain ⟨ts, hc⟩ := exists_ahead_of_kind hk hkind
    rw [reading_expect, hc]
    simpa using expect_cons h hc
  · refine current_bind h ?_
    rw [if_neg hkind, expect_of_kind_ne hkind]
    exact fail h rfl rfl _

theorem expectName (h : c.On tokens) :
    Runs tokens Tape.expectName c c.expectName.reading := by
  refine current_bind h ?_
  split
  · rename_i name hkind
    obtain ⟨ts, hc⟩ := exists_ahead_of_kind (by simp) hkind
    rw [reading_expectName, hc]
    exact (advance h hc).bind_ok fun hon => pure hon name
  · rename_i hkind
    rw [expectName_of_kind_ne hkind]
    exact fail h rfl rfl _

/-- Moves past a token of the kind that may be there. -/
theorem accept_bind {k : Token.Kind} {a : Span} {ts : List Token} {f : Bool → Parser β}
    {y : Reading β} (h : c.On tokens) (hc : c.ahead = ⟨k, a⟩ :: ts)
    (hf : Cursor.On tokens { c with ahead := ts } →
      Runs tokens (f true) { c with ahead := ts } y) : Runs tokens (accept k >>= f) c y := by
  have haccept : Runs tokens (accept k) c ⟨.ok true, { c with ahead := ts }⟩ := by
    refine current_bind h ?_
    rw [if_pos (kind_of_ahead hc)]
    exact (advance h hc).bind_ok fun hon => pure hon true
  exact haccept.bind_ok hf

/-- Stays at a token of another kind. -/
theorem accept_bind_of_ne {k : Token.Kind} {f : Bool → Parser β} {y : Reading β}
    (h : c.On tokens) (hk : c.kind ≠ k) (hf : Runs tokens (f false) c y) :
    Runs tokens (accept k >>= f) c y := by
  have haccept : Runs tokens (accept k) c ⟨.ok false, c⟩ := by
    refine current_bind h ?_
    rw [if_neg hk]
    exact pure h false
  exact haccept.bind_ok fun _ => hf

/-- Goes on after what ends with a closing parenthesis. -/
theorem closed_bind {y : Reading α} {g : α → Cursor → Reading β}
    (hx : Runs tokens (do
      let a ← x
      let _ ← Tape.expect .rightParen
      return a) c y)
    (hf : ∀ a r, y = ⟨.ok a, r⟩ → r.On tokens → Runs tokens (f a) r (g a r)) :
    Runs tokens (do
      let a ← x
      let _ ← Tape.expect .rightParen
      f a) c (y.bind g) := by
  have hbind := hx.bind hf
  simpa only [bind_assoc, pure_bind] using hbind

end Runs

/-! ## Types -/

mutual

theorem typeExpr_runs {depth : Nat} {c : Cursor} (h : c.On tokens) (hdepth : 2 * c.left < depth) :
    Runs tokens (typeExpr depth) c (Parse.typeExpr c).reading := by
  obtain ⟨depth, rfl⟩ := Nat.exists_eq_add_one_of_ne_zero (Nat.ne_zero_of_lt hdepth)
  rw [typeExpr, Parse.reading_typeExpr]
  refine .current_bind h ?_
  cases hc : c.ahead with
  | nil =>
    have hkind : c.kind = .eof := by simp [kind, hc]
    rw [hkind]
    exact .fail h hkind rfl _
  | cons t ts =>
    obtain ⟨k, a⟩ := t
    have hkind := kind_of_ahead hc
    have hspan := span_of_ahead hc
    rw [hkind, hspan]
    cases k with
    | ident name =>
      refine (Runs.advance h hc).bind_ok fun hon => ?_
      exact .ite (.pure hon _) (.ite (.pure hon _) (.throw hon _))
    | leftParen =>
      refine (Runs.advance h hc).bind_ok fun hon => ?_
      have hlt := left_lt_of_cons hc
      have hparams := params_runs depth hon (by omega) []
      simp only [List.nil_append, Reading.bind_pure] at hparams
      refine hparams.closed_bind fun ps r₁ h₁ hon₁ => ?_
      have hle₁ := left_le_of_reading h₁
      refine (Runs.expect (by decide) hon₁).bind fun _ r₂ h₂ hon₂ => ?_
      have hle₂ := left_le_of_reading h₂
      refine (typeExpr_runs hon₂ (by omega)).bind fun result r₃ _ hon₃ => ?_
      exact .pure hon₃ _
    | _ => exact .fail h hkind hspan _
termination_by depth

/-- Parameters and the parenthesis that closes them. -/
theorem params_runs (depth : Nat) {c : Cursor} (h : c.On tokens)
    (hdepth : 2 * c.left + 1 < depth) (found : List ParamDecl) :
    Runs tokens (do
      let ps ← params depth found
      let _ ← expect .rightParen
      return ps) c ((Parse.params c).reading.bind fun ps r => ⟨.ok (found ++ ps), r⟩) := by
  obtain ⟨depth, rfl⟩ := Nat.exists_eq_add_one_of_ne_zero (Nat.ne_zero_of_lt hdepth)
  rw [params]
  simp only [bind_assoc]
  refine .current_bind h ?_
  by_cases hclose : c.kind = .rightParen
  · obtain ⟨ts, hc⟩ := exists_ahead_of_kind (by decide) hclose
    rw [if_pos hclose, pure_bind, Parse.reading_params, hc]
    simp only [Reading.bind_ok, List.append_nil]
    exact (Runs.expect_cons h hc).bind_ok fun hon => .pure hon found
  · rw [if_neg hclose, Parse.params_of_kind_ne hclose, Parse.someParams]
    simp only [bind_assoc, Reading.bind_assoc]
    refine (Runs.expectName h).bind fun name r₁ h₁ hon₁ => ?_
    have hlt₁ := (passes_of_expectName h₁).1.left_lt
    simp only [Parse.paramType, Reading.bind_assoc]
    refine (Runs.expect (by decide) hon₁).bind fun _ r₂ h₂ hon₂ => ?_
    have hle₂ := left_le_of_reading h₂
    refine (typeExpr_runs hon₂ (by omega)).bind fun type r₃ h₃ hon₃ => ?_
    have hle₃ := left_le_of_reading h₃
    by_cases hcomma : r₃.kind = .comma
    · obtain ⟨ts, hr₃⟩ := exists_ahead_of_kind (by decide) hcomma
      have hlt := left_lt_of_cons hr₃
      refine .accept_bind hon₃ hr₃ fun hon => ?_
      rw [if_pos rfl, Parse.moreParams, hr₃]
      have hmore := params_runs depth hon (by omega)
        (found ++ [⟨name, type, ⟨c.span.start, type.span.stop⟩⟩])
      simpa [Reading.bind_assoc] using hmore
    · refine .accept_bind_of_ne hon₃ hcomma ?_
      rw [if_neg (by decide), pure_bind, Parse.moreParams_of_kind_ne hcomma, Reading.bind_assoc]
      exact (Runs.expect (by decide) hon₃).bind fun _ r₄ _ hon₄ => .pure hon₄ _
termination_by depth

end

/-! ## Expressions -/

theorem peek_apply {n : Nat} {after : List Token}
    (h : tokens.drop (c.tape tokens).pos = c.ahead ++ ⟨.eof, c.eof⟩ :: after) :
    peek n (c.tape tokens) =
      some (.ok (((c.ahead ++ ⟨.eof, c.eof⟩ :: after)[n]?.map (·.kind)).getD .eof),
        c.tape tokens) := by
  rw [← h, List.getElem?_drop]
  rfl

/-- The look ahead ends at the first end of file, even when there are tokens behind it. -/
theorem looksLikeArrow_runs {a : Span} {ts : List Token} (h : c.On tokens)
    (hc : c.ahead = ⟨.leftParen, a⟩ :: ts) :
    Runs tokens looksLikeArrow c ⟨.ok (Parse.startsArrow ts), c⟩ := by
  obtain ⟨-, after, hdrop⟩ := h.exists_drop
  refine ⟨?_, h⟩
  rw [looksLikeArrow, bind_of_ok (peek_apply hdrop), bind_of_ok (peek_apply hdrop), hc]
  cases ts with
  | nil => rfl
  | cons t ts =>
    obtain ⟨k, b⟩ := t
    cases ts with
    | nil => cases k <;> rfl
    | cons t' ts =>
      obtain ⟨k', b'⟩ := t'
      cases k with
      | rightParen | ident _ => cases k' <;> rfl
      | _ => rfl

/-- Where an expression ends, nothing goes on. -/
theorem climb_of_ends {depth power start : Nat} {left : Term} (hdepth : 0 < depth)
    (h : c.On tokens) (hends : Grammar.Ends c.kind) :
    Runs tokens (climb depth power start left) c ⟨.ok left, c⟩ := by
  obtain ⟨depth, rfl⟩ := Nat.exists_eq_add_one_of_ne_zero (Nat.ne_zero_of_lt hdepth)
  rw [climb]
  refine .current_bind h ?_
  cases hkind : c.kind with
  | leftParen => exact absurd hkind hends.1
  | plus => exact absurd hkind hends.2.1
  | question => exact absurd hkind hends.2.2
  | _ => exact .pure h _

mutual

/-- A binding power that lets all operators in reads an expression. -/
theorem exprAt_runs {depth power : Nat} {c : Cursor} (h : c.On tokens)
    (hpower : power ≤ condPower.1) (hdepth : 5 * c.left + 2 < depth) :
    Runs tokens (exprAt depth power) c (Parse.expr c).reading := by
  obtain ⟨depth, rfl⟩ := Nat.exists_eq_add_one_of_ne_zero (Nat.ne_zero_of_lt hdepth)
  rw [exprAt, Parse.reading_expr_eq_bind]
  refine .current_bind h ?_
  refine (primary_runs h (by omega)).bind fun first r hfirst hon => ?_
  have hle := left_le_of_reading hfirst
  exact climb_runs hon hpower (by omega) _ _
termination_by depth

/-- A binding power above that of `+` reads an operand. -/
theorem exprAt_operand_runs {depth power : Nat} {c : Cursor} (h : c.On tokens)
    (hsum : sumPower.1 < power) (hcall : power ≤ callPower) (hdepth : 5 * c.left + 2 < depth) :
    Runs tokens (exprAt depth power) c (Parse.operand c).reading := by
  obtain ⟨depth, rfl⟩ := Nat.exists_eq_add_one_of_ne_zero (Nat.ne_zero_of_lt hdepth)
  rw [exprAt, Parse.reading_operand]
  refine .current_bind h ?_
  refine (primary_runs h (by omega)).bind fun first r hfirst hon => ?_
  have hle := left_le_of_reading hfirst
  exact climb_operand_runs hon hsum hcall (by omega) _ _
termination_by depth

theorem climb_runs {depth power : Nat} {c : Cursor} (h : c.On tokens)
    (hpower : power ≤ condPower.1) (hdepth : 5 * c.left + 1 < depth) (start : Nat) (left : Term) :
    Runs tokens (climb depth power start left) c (Parse.afterAtom start left c) := by
  obtain ⟨depth, rfl⟩ := Nat.exists_eq_add_one_of_ne_zero (Nat.ne_zero_of_lt hdepth)
  have hsum : power ≤ sumPower.1 := Nat.le_trans hpower (by decide)
  have hcall : power ≤ callPower := Nat.le_trans hsum (by decide)
  rw [climb]
  refine .current_bind h ?_
  cases hkind : c.kind with
  | leftParen =>
    obtain ⟨ts, hc⟩ := exists_ahead_of_kind (by decide) hkind
    have hlt := left_lt_of_cons hc
    dsimp only
    rw [if_neg (Nat.not_lt.2 hcall), Parse.afterAtom, Parse.calls_open hc, Reading.bind_assoc]
    refine (call_runs h hc (by omega) left).bind fun called r hcalled hon => ?_
    have hle := Parse.left_le_of_callOf hcalled
    exact climb_runs hon hpower (by omega) _ _
  | question =>
    obtain ⟨ts, hc⟩ := exists_ahead_of_kind (by decide) hkind
    have hlt := left_lt_of_cons hc
    dsimp only
    rw [if_neg (Nat.not_lt.2 hpower), Parse.afterAtom_of_ne (by simp [hkind]),
      Parse.addends_of_kind_ne (by simp [hkind]), Reading.bind_ok, Parse.afterSum, hc]
    refine (Runs.advance h hc).bind_ok fun hon => ?_
    refine (exprAt_runs hon (by decide) (by omega)).bind fun yes r₁ hyes hon₁ => ?_
    have hle₁ := left_le_of_reading hyes
    refine (Runs.expect (by decide) hon₁).bind fun _ r₂ hcolon hon₂ => ?_
    have hle₂ := left_le_of_reading hcolon
    refine (exprAt_runs hon₂ (by decide) (by omega)).bind fun no r₃ hno hon₃ => ?_
    refine (Runs.node hon₃ _ _).bind_ok fun hon₄ => ?_
    -- the second branch took all that could follow
    obtain ⟨_, -, -, hends⟩ := Parse.expr_written hno
    exact climb_of_ends (by omega) hon₄ hends
  | plus =>
    obtain ⟨ts, hc⟩ := exists_ahead_of_kind (by decide) hkind
    have hlt := left_lt_of_cons hc
    dsimp only
    rw [if_neg (Nat.not_lt.2 hsum), Parse.afterAtom_of_ne (by simp [hkind]),
      Parse.reading_addends, hc]
    dsimp only
    rw [Reading.bind_assoc]
    refine (Runs.advance h hc).bind_ok fun hon => ?_
    refine (exprAt_operand_runs hon (by decide) (by decide) (by omega)).bind
      fun next r₁ hnext hon₁ => ?_
    have hle₁ := left_le_of_reading hnext
    refine (Runs.node hon₁ _ _).bind_ok fun hon₂ => ?_
    -- the operand took all argument lists
    obtain ⟨_, _, -, -, hstops⟩ := Parse.operand_written hnext
    have hne : r₁.tick.kind ≠ .leftParen := hstops.1
    rw [← Parse.afterAtom_of_ne hne]
    exact climb_runs hon₂ hpower (by rw [left_tick]; omega) _ _
  | _ =>
    rw [Parse.afterAtom_of_ends (by simp [hkind, Grammar.Ends])]
    exact .pure h _
termination_by depth

theorem climb_operand_runs {depth power : Nat} {c : Cursor} (h : c.On tokens)
    (hsum : sumPower.1 < power) (hcall : power ≤ callPower) (hdepth : 5 * c.left + 1 < depth)
    (start : Nat) (left : Term) :
    Runs tokens (climb depth power start left) c (Parse.calls left c).reading := by
  obtain ⟨depth, rfl⟩ := Nat.exists_eq_add_one_of_ne_zero (Nat.ne_zero_of_lt hdepth)
  have hcond : condPower.1 < power := Nat.lt_trans (by decide) hsum
  rw [climb]
  refine .current_bind h ?_
  by_cases hopen : c.kind = .leftParen
  · obtain ⟨ts, hc⟩ := exists_ahead_of_kind (by decide) hopen
    have hlt := left_lt_of_cons hc
    rw [hopen]
    dsimp only
    rw [if_neg (Nat.not_lt.2 hcall), Parse.calls_open hc]
    refine (call_runs h hc (by omega) left).bind fun called r hcalled hon => ?_
    have hle := Parse.left_le_of_callOf hcalled
    exact climb_operand_runs hon hsum hcall (by omega) _ _
  · rw [Parse.calls_of_kind_ne hopen]
    cases hkind : c.kind with
    | leftParen => exact absurd hkind hopen
    | question =>
      dsimp only
      rw [if_pos hcond]
      exact .pure h _
    | plus =>
      dsimp only
      rw [if_pos hsum]
      exact .pure h _
    | _ => exact .pure h _
termination_by depth

theorem primary_runs {depth : Nat} {c : Cursor} (h : c.On tokens)
    (hdepth : 5 * c.left + 1 < depth) :
    Runs tokens (primary depth) c (Parse.atom c).reading := by
  obtain ⟨depth, rfl⟩ := Nat.exists_eq_add_one_of_ne_zero (Nat.ne_zero_of_lt hdepth)
  rw [primary, Parse.reading_atom]
  refine .current_bind h ?_
  cases hc : c.ahead with
  | nil =>
    have hkind : c.kind = .eof := by simp [kind, hc]
    rw [hkind]
    exact .fail h hkind rfl _
  | cons t ts =>
    obtain ⟨k, a⟩ := t
    have hkind := kind_of_ahead hc
    have hspan := span_of_ahead hc
    have hlt := left_lt_of_cons hc
    rw [hkind, hspan]
    cases k with
    | number v => exact (Runs.advance h hc).bind_ok fun hon => .node hon _ _
    | bool v => exact (Runs.advance h hc).bind_ok fun hon => .node hon _ _
    | ident x => exact (Runs.advance h hc).bind_ok fun hon => .node hon _ _
    | leftParen =>
      refine (looksLikeArrow_runs h hc).bind_ok fun _ => ?_
      refine .ite (arrow_runs h hc (by omega)) ?_
      refine (Runs.advance h hc).bind_ok fun hon => ?_
      refine (exprAt_runs hon (by decide) (by omega)).bind fun inner r₁ _ hon₁ => ?_
      refine (Runs.expect (by decide) hon₁).bind fun close r₂ _ hon₂ => ?_
      exact .pure hon₂ _
    | _ => exact .fail h hkind hspan _
termination_by depth

theorem arrow_runs {depth : Nat} {c : Cursor} {a : Span} {ts : List Token} (h : c.On tokens)
    (hc : c.ahead = ⟨.leftParen, a⟩ :: ts) (hdepth : 5 * c.left < depth) :
    Runs tokens (arrow depth) c (Parse.arrow a { c with ahead := ts }) := by
  obtain ⟨depth, rfl⟩ := Nat.exists_eq_add_one_of_ne_zero (Nat.ne_zero_of_lt hdepth)
  have hlt := left_lt_of_cons hc
  have hspan := span_of_ahead hc
  rw [arrow, Parse.arrow]
  refine .current_bind h ?_
  refine (Runs.expect_cons h hc).bind_ok fun hon => ?_
  have hparams := params_runs depth hon (by omega) []
  simp only [List.nil_append, Reading.bind_pure] at hparams
  refine hparams.closed_bind fun ps r₁ h₁ hon₁ => ?_
  have hle₁ := left_le_of_reading h₁
  refine (Runs.expect (by decide) hon₁).bind fun _ r₂ h₂ hon₂ => ?_
  have hle₂ := left_le_of_reading h₂
  refine (exprAt_runs hon₂ (by decide) (by omega)).bind fun body r₃ _ hon₃ => ?_
  rw [hspan]
  exact .node hon₃ _ _
termination_by depth

theorem call_runs {depth : Nat} {c : Cursor} {a : Span} {ts : List Token} (h : c.On tokens)
    (hc : c.ahead = ⟨.leftParen, a⟩ :: ts) (hdepth : 5 * c.left < depth) (callee : Term) :
    Runs tokens (call depth callee) c (Parse.callOf callee { c with ahead := ts }) := by
  obtain ⟨depth, rfl⟩ := Nat.exists_eq_add_one_of_ne_zero (Nat.ne_zero_of_lt hdepth)
  have hlt := left_lt_of_cons hc
  rw [call, Parse.callOf]
  refine (Runs.expect_cons h hc).bind_ok fun hon => ?_
  have hargs := args_runs depth hon (by omega) []
  simp only [List.nil_append, Reading.bind_pure] at hargs
  have hnode := hargs.bind
    (f := fun (as, close) => node (callee.span.join close) (.call · callee as))
    (g := fun (as, close) r => ⟨.ok (.call ⟨r.nextId, callee.span.join close⟩ callee as), r.tick⟩)
    fun _ _ _ hon => .node hon _ _
  simpa only [bind_assoc, pure_bind] using hnode
termination_by depth

/-- Arguments and the parenthesis that closes them. -/
theorem args_runs (depth : Nat) {c : Cursor} (h : c.On tokens)
    (hdepth : 5 * c.left + 3 < depth) (found : List Term) :
    Runs tokens (do
      let as ← args depth found
      let close ← expect .rightParen
      return (as, close)) c
      ((Parse.args c).reading.bind fun (as, close) r => ⟨.ok (found ++ as, close), r⟩) := by
  obtain ⟨depth, rfl⟩ := Nat.exists_eq_add_one_of_ne_zero (Nat.ne_zero_of_lt hdepth)
  rw [args]
  simp only [bind_assoc]
  refine .current_bind h ?_
  by_cases hclose : c.kind = .rightParen
  · obtain ⟨ts, hc⟩ := exists_ahead_of_kind (by decide) hclose
    rw [if_pos hclose, pure_bind, Parse.reading_args, hc]
    simp only [Reading.bind_ok, List.append_nil]
    exact (Runs.expect_cons h hc).bind_ok fun hon => .pure hon _
  · rw [if_neg hclose, Parse.args_of_kind_ne hclose, Parse.someArgs]
    simp only [bind_assoc, Reading.bind_assoc]
    refine (exprAt_runs h (by decide) (by omega)).bind fun a r₁ h₁ hon₁ => ?_
    have hle₁ := left_le_of_reading h₁
    by_cases hcomma : r₁.kind = .comma
    · obtain ⟨ts, hr₁⟩ := exists_ahead_of_kind (by decide) hcomma
      have hlt := left_lt_of_cons hr₁
      refine .accept_bind hon₁ hr₁ fun hon₂ => ?_
      have hargs := args_runs depth hon₂ (by omega) (found ++ [a])
      rw [Parse.moreArgs, hr₁]
      simpa [Reading.bind_assoc] using hargs
    · refine .accept_bind_of_ne hon₁ hcomma ?_
      rw [Parse.moreArgs_of_kind_ne hcomma, Reading.bind_assoc]
      simp only [Bool.false_eq_true, if_false, pure_bind, Reading.bind_ok]
      exact (Runs.expect (by decide) hon₁).bind fun close r₂ _ hon₂ => .pure hon₂ _
termination_by depth

end

/-! ## Programs -/

theorem statements_runs {depth : Nat} {c : Cursor} (h : c.On tokens)
    (hdepth : 5 * c.left + 3 < depth) :
    Runs tokens (statements depth) c (Parse.statements c).reading := by
  obtain ⟨depth, rfl⟩ := Nat.exists_eq_add_one_of_ne_zero (Nat.ne_zero_of_lt hdepth)
  rw [statements]
  refine .current_bind h ?_
  by_cases hconst : c.kind = .const
  · obtain ⟨ts, hc⟩ := exists_ahead_of_kind (by decide) hconst
    have hlt := left_lt_of_cons hc
    rw [Parse.reading_statements, hc]
    refine .accept_bind h hc fun hon => ?_
    refine (Runs.expectName hon).bind fun name r₁ h₁ hon₁ => ?_
    have hle₁ := left_le_of_reading h₁
    refine (Runs.expect (by decide) hon₁).bind fun _ r₂ h₂ hon₂ => ?_
    have hle₂ := left_le_of_reading h₂
    refine (exprAt_runs hon₂ (by decide) (by omega)).bind fun init r₃ h₃ hon₃ => ?_
    have hle₃ := left_le_of_reading h₃
    refine (Runs.expect (by decide) hon₃).bind fun _ r₄ h₄ hon₄ => ?_
    have hle₄ := left_le_of_reading h₄
    refine .current_bind hon₄ (.ite ?_ (.throw hon₄ _))
    exact (statements_runs hon₄ (by omega)).bind fun rest r₅ _ hon₅ => .node hon₅ _ _
  · rw [Parse.statements_of_kind_ne hconst, Parse.exprStatements]
    refine .accept_bind_of_ne h hconst ?_
    refine (exprAt_runs h (by decide) (by omega)).bind fun body r₁ h₁ hon₁ => ?_
    have hle₁ := left_le_of_reading h₁
    by_cases hsemi : r₁.kind = .semicolon
    · obtain ⟨ts, hr₁⟩ := exists_ahead_of_kind (by decide) hsemi
      have hlt := left_lt_of_cons hr₁
      rw [Parse.moreStatements, hr₁]
      refine .accept_bind hon₁ hr₁ fun hon₂ => ?_
      refine .current_bind hon₂ (.ite ?_ (.pure hon₂ _))
      exact (statements_runs hon₂ (by omega)).bind fun rest r₃ _ hon₃ => .node hon₃ _ _
    · rw [Parse.moreStatements_of_kind_ne hsemi]
      exact .accept_bind_of_ne hon₁ hsemi (.pure hon₁ _)
termination_by depth

theorem program_runs {depth : Nat} {c : Cursor} (h : c.On tokens)
    (hdepth : 5 * c.left + 3 < depth) :
    Runs tokens (program depth) c (Parse.program c).reading := by
  rw [program, Parse.reading_program]
  refine (statements_runs h hdepth).bind fun t r _ hon => ?_
  refine .current_bind hon ?_
  cases hr : r.ahead with
  | nil =>
    have hkind : r.kind = .eof := by simp [kind, hr]
    rw [if_pos hkind, Parse.finish, hr]
    exact .pure hon t
  | cons next ts =>
    have hkind : r.kind ≠ .eof := by
      rw [kind_of_ahead hr]
      exact hon.kind_ne_eof hr
    rw [if_neg hkind, Parse.finish, hr]
    exact .fail hon rfl rfl _

end Tape

end ArrowLang
