import ArrowLang.Proofs.Grammar.Stuck

/-!
# Errors at the earliest token

Each function of the parser gets stuck at the earliest token. The tokens after an opening
parenthesis are looked at before they are read, so of `()` where an expression is meant the
parenthesis that closes is refused, although only the token after it shows that no arrow function is
meant.
-/

namespace ArrowLang

open Cursor Outcome Grammar

namespace Parse

/-! ## Expressions -/

/-- An expression can start with a token of this kind. -/
def Begins : Token.Kind → Prop
  | .number _ | .bool _ | .ident _ | .leftParen => True
  | _ => False

theorem atom_of_not_begins {s : Cursor} (h : ¬ Begins s.kind) :
    (atom s).reading = (s.fail .expression).reading := by
  rw [reading_atom]
  split
  case h_5 => rfl
  all_goals
    rename_i hs
    rw [kind_of_ahead hs] at h
    exact absurd trivial h

theorem expr_of_not_begins {s : Cursor} (h : ¬ Begins s.kind) :
    (expr s).reading = (s.fail .expression).reading := by
  rw [reading_expr, sum, reading_operand, atom_of_not_begins h]
  rfl

/-- Of the tokens that can start an expression only a parenthesis is no atom by itself. -/
theorem open_of_atom_fails {s r : Cursor} {e : ParseError} (hbegin : Begins s.kind)
    (h : (atom s).reading = ⟨.error e, r⟩) : ∃ a ts, s.ahead = ⟨.leftParen, a⟩ :: ts ∧
      (if startsArrow ts then arrow a { s with ahead := ts }
        else parens a { s with ahead := ts }) = ⟨.error e, r⟩ := by
  rw [reading_atom] at h
  split at h
  case h_4 a ts hs => exact ⟨a, ts, hs, h⟩
  case h_5 hnum hbool hname hopen =>
    cases hk : s.kind with
    | number v => exact absurd hk (kind_ne_of_ahead_ne (by simp) (hnum v))
    | bool v => exact absurd hk (kind_ne_of_ahead_ne (by simp) (hbool v))
    | ident x => exact absurd hk (kind_ne_of_ahead_ne (by simp) (hname x))
    | leftParen => exact absurd hk (kind_ne_of_ahead_ne (by simp) hopen)
    | _ => simp [hk, Begins] at hbegin
  all_goals cases h

theorem atom_reads_expr {i j : Nat} {ts : List Token} {t : Term} (h : Written.Atom i ts t j)
    {k : List Token} (e : Span) (hk : Ends (Cursor.kind ⟨k, e, j⟩)) :
    (expr ⟨ts ++ k, e, i⟩).reading = ⟨.ok t, ⟨k, e, j⟩⟩ :=
  Written.Expr.reads (.sum (.operand (.closed (.atom h)))) e hk

theorem arrow_reads {us : List Token} {ps : List ParamDecl} (h : Written.Params us ps)
    (a b : Span) (i : Nat) : ∃ t r, arrow a ⟨us ++ [⟨.rightParen, .zero⟩, ⟨.fatArrow, .zero⟩,
      ⟨.bool true, .zero⟩], b, i⟩ = ⟨.ok t, r⟩ := by
  have hbody := atom_reads_expr (.bool (i := i) (a := .zero) (v := true)) (k := []) b
    (by simp [Cursor.kind, Ends])
  rw [List.append_nil] at hbody
  simp only [arrow, h.reads, expect_cons, hbody, Reading.bind_ok]
  exact ⟨_, _, rfl⟩

theorem parens_reads (x : String) (a b : Span) (i : Nat) : ∃ t r,
    parens a ⟨[⟨.ident x, .zero⟩, ⟨.rightParen, .zero⟩], b, i⟩ = ⟨.ok t, r⟩ := by
  have hname := atom_reads_expr (.var (i := i) (a := .zero) (x := x))
    (k := [⟨.rightParen, .zero⟩]) b (by simp [Cursor.kind, Ends])
  rw [List.singleton_append] at hname
  simp only [parens, hname, expect_cons, Reading.bind_ok]
  exact ⟨_, _, rfl⟩

section

variable {s : Cursor} {e : ParseError} {a : Span} {ts : List Token}

theorem StuckAt.atom_arrow
    (h : StuckAt (fun w => Derives .expr (.leftParen :: w)) (arrow a) { s with ahead := ts } e)
    (hs : s.ahead = ⟨.leftParen, a⟩ :: ts) (harrow : startsArrow ts = true) :
    StuckAt (Derives .expr) (fun s => (atom s).reading) s e := by
  obtain ⟨u, f, n, h⟩ := h
  have hu : u = [] → f.kind ≠ .rightParen ∧ ∀ x, f.kind ≠ .ident x := by
    rintro rfl
    constructor
    · obtain ⟨t, r, hok⟩ := arrow_reads .nil a s.eof s.nextId
      exact h.kind_ne_of_ok hok
    · intro x
      obtain ⟨t, r, hok⟩ := arrow_reads (.last (x := x) (a := .zero) (b := .zero)
        (.boolean (a := .zero))) a s.eof s.nextId
      exact h.kind_ne_of_ok hok
  refine ⟨_, f, n, h.after (passes_of_ahead hs) (fun w hw => ⟨[], by simpa using hw⟩) ?_⟩
  intro k b hk hfail
  rwa [List.singleton_append, atom_open, h.startsArrow_append hu hk, if_pos harrow]

theorem StuckAt.atom_parens
    (h : StuckAt (fun w => Derives .expr (.leftParen :: w)) (parens a) { s with ahead := ts } e)
    (hs : s.ahead = ⟨.leftParen, a⟩ :: ts) (harrow : ¬ startsArrow ts = true)
    (hclose : Cursor.kind { s with ahead := ts } ≠ .rightParen) :
    StuckAt (Derives .expr) (fun s => (atom s).reading) s e := by
  obtain ⟨u, f, n, h⟩ := h
  have hu : u = [] → f.kind ≠ .rightParen ∧ ∀ x, f.kind ≠ .ident x := by
    rintro rfl
    constructor
    · have hts : ts = f.ahead := h.passes.ahead
      subst hts
      exact hclose
    · intro x
      obtain ⟨t, r, hok⟩ := parens_reads x a s.eof s.nextId
      exact h.kind_ne_of_ok hok
  refine ⟨_, f, n, h.after (passes_of_ahead hs) (fun w hw => ⟨[], by simpa using hw⟩) ?_⟩
  intro k b hk hfail
  rwa [List.singleton_append, atom_open, h.startsArrow_append hu hk, if_neg harrow]

/-- The token after `()` tells that no arrow function is meant. -/
theorem emptyParens_stuck {r : Cursor} (hs : s.ahead = ⟨.leftParen, a⟩ :: ts)
    (harrow : ¬ startsArrow ts = true) (hclose : Cursor.kind { s with ahead := ts } = .rightParen)
    (h : parens a { s with ahead := ts } = ⟨.error e, r⟩) :
    StuckAt (Derives .expr) (fun s => (atom s).reading) s e := by
  have hfails {s : Cursor} (hs : s.kind = .rightParen) :
      parens a s = ⟨.error ⟨.unexpected .expression s.kind, s.span⟩, s⟩ := by
    rw [parens, expr_of_not_begins (by simp [hs, Begins])]
    rfl
  rw [hfails hclose] at h
  cases h
  refine ⟨_, _, 2, passes_of_ahead hs, rfl, ⟨[.bool true, .rightParen], .paren .bool⟩, ?_,
    .inr ⟨rfl, by rw [hclose], hclose, [], a, rfl, fun w hw => ⟨[], by simpa using hw⟩⟩⟩
  intro k b hk
  rw [List.singleton_append, atom_open, startsArrow_congr hk, if_neg harrow]
  exact ⟨_, _, hfails ((kind_eq_of_take_stream (by decide) hk _ _).trans hclose)⟩

end

theorem expr_replays {s r : Cursor} {t : Term} (h : (expr s).reading = ⟨.ok t, r⟩) :
    ∃ v, v ≠ [] ∧ Replays (fun s => (expr s).reading) s v t r ∧ Derives .expr (v.map (·.kind)) := by
  obtain ⟨v, hv, hexpr, hends⟩ := expr_written h
  exact ⟨v, Written.ne_nil_of_opens hexpr.shape.opens,
    ⟨hv, fun k b hk => hexpr.reads b (hk ▸ hends)⟩, hexpr.shape.derives⟩

theorem sum_replays {s r : Cursor} {t : Term} (h : sum s.span.start s = ⟨.ok t, r⟩) :
    ∃ v, v ≠ [] ∧ Replays (fun s => sum s.span.start s) s v t r ∧
      Derives .expr (v.map (·.kind)) := by
  obtain ⟨o, v, hv, -, hsum, hstop, hplus⟩ := sum_written h
  refine ⟨v, Written.ne_nil_of_opens hsum.shape.opens, ⟨hv, fun k b hk => ?_⟩, hsum.shape.derives⟩
  rw [Written.start_span hsum.shape.opens, hsum.reads b (hk ▸ hstop),
    addends_of_kind_ne (hk ▸ hplus)]

theorem operand_replays {s r : Cursor} {t : Term} (h : (operand s).reading = ⟨.ok t, r⟩) :
    ∃ v, v ≠ [] ∧ Replays (fun s => (operand s).reading) s v t r ∧
      Derives .expr (v.map (·.kind)) := by
  obtain ⟨o, v, hv, hop, hstop⟩ := operand_written h
  exact ⟨v, Written.ne_nil_of_opens hop.shape.opens,
    ⟨hv, fun k b hk => hop.reads b (hk ▸ hstop)⟩, hop.shape.derives⟩

theorem args_replays {s r : Cursor} {as : List Term × Span}
    (h : (args s).reading = ⟨.ok as, r⟩) :
    ∃ v, Replays (fun s => (args s).reading) s v as r ∧ Closed .args (v.map (·.kind)) := by
  obtain ⟨as, b⟩ := as
  obtain ⟨v, hv, hargs⟩ := args_written h
  refine ⟨_, ⟨hv, fun k c _ => ?_⟩, _, hargs.shape.derives, by simp⟩
  rw [List.append_assoc, List.singleton_append, hargs.reads]

/-- What can be put after an expression to make another one. -/
def Extends (z : List Token.Kind) : Prop := ∀ w, Derives .expr w → Derives .expr (w ++ z)

mutual

theorem expr_stuck {s r : Cursor} {e : ParseError} (h : (expr s).reading = ⟨.error e, r⟩) :
    StuckAt (Derives .expr) (fun s => (expr s).reading) s e := by
  rw [reading_expr] at h
  refine StuckAt.of_kind (g := fun s => (sum s.span.start s).bind (afterSum s.span.start)) ?_
    fun k b _ => reading_expr _
  obtain hsum | ⟨c, r₁, hsum, h⟩ := Reading.bind_eq_error_iff.1 h
  · exact (sum_stuck hsum).bind_start fun w hw => ⟨[], by simpa using hw⟩
  have hle := left_le_of_sum hsum
  obtain ⟨u, hne, hu, hu'⟩ := sum_replays hsum
  refine hu.bind_start hne ?_
  by_cases hquestion : r₁.kind = .question
  · obtain ⟨ts, hs⟩ := exists_ahead_of_kind (by decide) hquestion
    have hlt := left_lt_of_cons hs
    simp only [afterSum, hs] at h
    refine StuckAt.token (g := branches s.span.start c) ?_ hs fun k b => rfl
    obtain hyes | ⟨y, r₂, hyes, h⟩ := Reading.bind_eq_error_iff.1 h
    · refine (expr_stuck hyes).bind fun w hw => ⟨[.colon, .bool true], ?_⟩
      simpa using hu'.cond hw .bool
    have hle₂ := left_le_of_reading hyes
    obtain ⟨v, -, hv, hv'⟩ := expr_replays hyes
    refine hv.bind ?_
    obtain hcolon | ⟨d, r₃, hcolon, h⟩ := Reading.bind_eq_error_iff.1 h
    · refine (expect_stuck (by decide) hcolon).bind ?_
      rintro _ rfl
      exact ⟨[.bool true], by simpa using hu'.cond hv' .bool⟩
    have hlt₃ := (passes_of_expect hcolon).1.left_lt
    refine (expect_replays hcolon).bind ?_
    obtain hno | ⟨n, r₄, hno, h⟩ := Reading.bind_eq_error_iff.1 h
    · refine (expr_stuck hno).bind fun w hw => ⟨[], ?_⟩
      simpa using hu'.cond hv' hw
    · cases h
  · rw [afterSum_of_kind_ne hquestion] at h
    cases h
termination_by 5 * s.left + 3

theorem sum_stuck {s r : Cursor} {e : ParseError} (h : sum s.span.start s = ⟨.error e, r⟩) :
    StuckAt (Derives .expr) (fun s => sum s.span.start s) s e := by
  obtain hop | ⟨t, r₁, hop, h⟩ := Reading.bind_eq_error_iff.1 h
  · exact (operand_stuck hop).bind_start (g := fun start first r => (addends start first r).reading)
      fun w hw => ⟨[], by simpa using hw⟩
  have hle := left_le_of_reading hop
  obtain ⟨v, hne, hv, hv'⟩ := operand_replays hop
  refine hv.bind_start (g := fun start first r => (addends start first r).reading) hne ?_
  exact (addends_stuck h).mono fun w hw => hw _ hv'
termination_by 5 * s.left + 2

theorem addends_stuck {start : Nat} {sum : Term} {s r : Cursor} {e : ParseError}
    (h : (addends start sum s).reading = ⟨.error e, r⟩) :
    StuckAt Extends (fun s => (addends start sum s).reading) s e := by
  by_cases hplus : s.kind = .plus
  · obtain ⟨ts, hs⟩ := exists_ahead_of_kind (by decide) hplus
    have hlt := left_lt_of_cons hs
    rw [reading_addends, hs] at h
    obtain hop | ⟨t, r₁, hop, h⟩ := Reading.bind_eq_error_iff.1 h
    · refine StuckAt.token ((operand_stuck hop).bind fun w hw => ⟨[], fun x hx => ?_⟩) hs
        fun k b => reading_addends _ _ _
      simpa using hx.add hw
    have hle := left_le_of_reading hop
    obtain ⟨v, -, hv, hv'⟩ := operand_replays hop
    refine StuckAt.token (hv.bind ?_) hs fun k b => reading_addends _ _ _
    refine (addends_stuck h).after (passes_nil r₁).tick (fun w hw => ⟨[], fun x hx => ?_⟩)
      fun _ _ _ hfail => hfail
    simpa using hw _ (hx.add hv')
  · rw [addends_of_kind_ne hplus] at h
    cases h
termination_by 5 * s.left

theorem operand_stuck {s r : Cursor} {e : ParseError} (h : (operand s).reading = ⟨.error e, r⟩) :
    StuckAt (Derives .expr) (fun s => (operand s).reading) s e := by
  rw [reading_operand] at h
  refine StuckAt.of_kind (g := fun s => (atom s).reading.bind fun f r => (calls f r).reading) ?_
    fun k b _ => reading_operand _
  obtain hatom | ⟨f, r₁, hatom, h⟩ := Reading.bind_eq_error_iff.1 h
  · exact (atom_stuck hatom).bind fun w hw => ⟨[], by simpa using hw⟩
  have hle := left_le_of_reading hatom
  obtain ⟨v, hv, hatom' | ⟨-, hends⟩⟩ := atom_written hatom
  · have hread : Replays (fun s => (atom s).reading) s v f r₁ := ⟨hv, fun k b _ => hatom'.reads k b⟩
    exact hread.bind ((calls_stuck h).mono fun w hw => hw _ hatom'.shape.derives)
  · rw [calls_of_kind_ne hends.1] at h
    cases h
termination_by 5 * s.left + 1

theorem calls_stuck {callee : Term} {s r : Cursor} {e : ParseError}
    (h : (calls callee s).reading = ⟨.error e, r⟩) :
    StuckAt Extends (fun s => (calls callee s).reading) s e := by
  by_cases hopen : s.kind = .leftParen
  · obtain ⟨ts, hs⟩ := exists_ahead_of_kind (by decide) hopen
    have hlt := left_lt_of_cons hs
    rw [reading_calls, hs] at h
    obtain hargs | ⟨as, r₁, hargs, h⟩ := Reading.bind_eq_error_iff.1 h
    · refine StuckAt.token ((args_stuck hargs).bind ?_) hs fun k b => reading_calls _ _
      rintro _ ⟨w, hw, rfl⟩
      exact ⟨[], fun x hx => by simpa using hx.call hw⟩
    have hle := left_le_of_reading hargs
    obtain ⟨v, hv, w, hw, hv'⟩ := args_replays hargs
    refine StuckAt.token (hv.bind ?_) hs fun k b => reading_calls _ _
    refine (calls_stuck h).after (passes_nil r₁).tick (fun z hz => ⟨[], fun x hx => ?_⟩)
      fun _ _ _ hfail => hfail
    simpa [hv'] using hz _ (hx.call hw)
  · rw [calls_of_kind_ne hopen] at h
    cases h
termination_by 5 * s.left

theorem args_stuck {s r : Cursor} {e : ParseError} (h : (args s).reading = ⟨.error e, r⟩) :
    StuckAt (Closed .args) (fun s => (args s).reading) s e := by
  have hclose : s.kind ≠ .rightParen := by
    intro he
    obtain ⟨ts, hs⟩ := exists_ahead_of_kind (by decide) he
    rw [reading_args, hs] at h
    cases h
  rw [args_of_kind_ne hclose] at h
  refine StuckAt.of_kind (g := someArgs) ?_ fun k b hk => args_of_kind_ne (hk ▸ hclose)
  obtain ha | ⟨a, r₁, ha, h⟩ := Reading.bind_eq_error_iff.1 h
  · refine (expr_stuck ha).bind fun w hw => ?_
    exact ⟨[.rightParen], _, .args (.oneExpr hw), by simp⟩
  have hle := left_le_of_reading ha
  obtain ⟨v, -, hv, hv'⟩ := expr_replays ha
  refine hv.bind ?_
  by_cases hcomma : r₁.kind = .comma
  · obtain ⟨ts, hs⟩ := exists_ahead_of_kind (by decide) hcomma
    have hlt := left_lt_of_cons hs
    simp only [moreArgs, hs] at h
    obtain has | ⟨as, r₂, has, h⟩ := Reading.bind_eq_error_iff.1 h
    · refine StuckAt.token ((args_stuck has).bind ?_) hs fun k b => rfl
      rintro _ ⟨w, hw, rfl⟩
      exact ⟨[], _, hv'.cons_args hw, by simp⟩
    · cases h
  · rw [moreArgs_of_kind_ne hcomma] at h
    obtain hclose | ⟨c, r₂, hclose, h⟩ := Reading.bind_eq_error_iff.1 h
    · refine StuckAt.of_kind ((expect_stuck (by decide) hclose).bind ?_)
        fun k b hk => moreArgs_of_kind_ne (hk ▸ hcomma)
      rintro _ rfl
      exact ⟨[], _, .args (.oneExpr hv'), by simp⟩
    · cases h
termination_by 5 * s.left + 4

theorem arrow_stuck {a : Span} {s r : Cursor} {e : ParseError} (h : arrow a s = ⟨.error e, r⟩) :
    StuckAt (fun w => Derives .expr (.leftParen :: w)) (arrow a) s e := by
  obtain hps | ⟨ps, r₁, hps, h⟩ := Reading.bind_eq_error_iff.1 h
  · refine (params_stuck hps).bind ?_
    rintro _ ⟨v, hv, rfl⟩
    exact ⟨[.fatArrow, .bool true], by simpa using hv.arrow .bool⟩
  have hle := left_le_of_reading hps
  obtain ⟨u, hu, w, hw, hu'⟩ := params_replays hps
  refine hu.bind ?_
  obtain harrow | ⟨c, r₂, harrow, h⟩ := Reading.bind_eq_error_iff.1 h
  · refine (expect_stuck (by decide) harrow).bind ?_
    rintro _ rfl
    exact ⟨[.bool true], by simpa [hu'] using hw.arrow .bool⟩
  have hlt := (passes_of_expect harrow).1.left_lt
  refine (expect_replays harrow).bind ?_
  obtain hbody | ⟨b, r₃, hbody, h⟩ := Reading.bind_eq_error_iff.1 h
  · refine (expr_stuck hbody).bind fun v hv => ⟨[], ?_⟩
    simpa [hu'] using hw.arrow hv
  · cases h
termination_by 5 * s.left + 4

theorem parens_stuck {a : Span} {s r : Cursor} {e : ParseError} (h : parens a s = ⟨.error e, r⟩) :
    StuckAt (fun w => Derives .expr (.leftParen :: w)) (parens a) s e := by
  obtain hinner | ⟨t, r₁, hinner, h⟩ := Reading.bind_eq_error_iff.1 h
  · refine (expr_stuck hinner).bind fun w hw => ⟨[.rightParen], ?_⟩
    simpa using hw.paren
  obtain ⟨u, -, hu, hu'⟩ := expr_replays hinner
  refine hu.bind ?_
  obtain hclose | ⟨c, r₂, hclose, h⟩ := Reading.bind_eq_error_iff.1 h
  · refine (expect_stuck (by decide) hclose).bind ?_
    rintro _ rfl
    exact ⟨[], by simpa using hu'.paren⟩
  · cases h
termination_by 5 * s.left + 4

theorem atom_stuck {s r : Cursor} {e : ParseError} (h : (atom s).reading = ⟨.error e, r⟩) :
    StuckAt (Derives .expr) (fun s => (atom s).reading) s e := by
  by_cases hbegin : Begins s.kind
  · obtain ⟨a, ts, hs, h⟩ := open_of_atom_fails hbegin h
    have hlt := left_lt_of_cons hs
    split at h
    · rename_i harrow
      exact (arrow_stuck h).atom_arrow hs harrow
    · rename_i harrow
      by_cases hclose : Cursor.kind { s with ahead := ts } = .rightParen
      · exact emptyParens_stuck hs harrow hclose h
      · exact (parens_stuck h).atom_parens hs harrow hclose
  · rw [atom_of_not_begins hbegin] at h
    cases h
    exact .here ⟨_, .bool (v := true)⟩ rfl fun k b hk => ⟨_, _, atom_of_not_begins (hk ▸ hbegin)⟩
termination_by 5 * s.left

end

/-! ## Statements -/

theorem statements_replays {s r : Cursor} {t : Term} (h : (statements s).reading = ⟨.ok t, r⟩) :
    ∃ v, Replays (fun s => (statements s).reading) s v t r ∧ Derives .stmts (v.map (·.kind)) := by
  obtain ⟨u, v, huv, hv, hfin, hstmts⟩ := statements_written h
  refine ⟨u ++ v, ⟨huv, fun k b hk => ?_⟩, (hstmts.shape hv).derives⟩
  rw [List.append_assoc]
  exact hstmts.reads hv b (hk ▸ hfin)

mutual

theorem constStatements_stuck {a : Span} {s r : Cursor} {e : ParseError}
    (h : constStatements a s = ⟨.error e, r⟩) :
    StuckAt (fun w => Derives .stmts (.const :: w)) (constStatements a) s e := by
  obtain hname | ⟨x, r₁, hname, h⟩ := Reading.bind_eq_error_iff.1 h
  · refine (expectName_stuck hname).bind ?_
    rintro _ ⟨x, rfl⟩
    exact ⟨[.equals, .bool true, .semicolon, .bool true], .const .bool (.last .bool)⟩
  have hlt₁ := (passes_of_expectName hname).1.left_lt
  refine (expectName_replays hname).bind ?_
  obtain hequals | ⟨c, r₂, hequals, h⟩ := Reading.bind_eq_error_iff.1 h
  · refine (expect_stuck (by decide) hequals).bind ?_
    rintro _ rfl
    exact ⟨[.bool true, .semicolon, .bool true], .const .bool (.last .bool)⟩
  have hlt₂ := (passes_of_expect hequals).1.left_lt
  refine (expect_replays hequals).bind ?_
  obtain hinit | ⟨i, r₃, hinit, h⟩ := Reading.bind_eq_error_iff.1 h
  · refine (expr_stuck hinit).bind fun w hw => ⟨[.semicolon, .bool true], ?_⟩
    simpa using hw.const (.last .bool)
  have hle₃ := left_le_of_reading hinit
  obtain ⟨v, -, hv, hv'⟩ := expr_replays hinit
  refine hv.bind ?_
  obtain hsemi | ⟨d, r₄, hsemi, h⟩ := Reading.bind_eq_error_iff.1 h
  · refine (expect_stuck (by decide) hsemi).bind ?_
    rintro _ rfl
    exact ⟨[.bool true], by simpa using hv'.const (.last .bool)⟩
  have hlt₄ := (passes_of_expect hsemi).1.left_lt
  refine (expect_replays hsemi).bind ?_
  unfold constBody at h
  split at h
  · rename_i hstart
    obtain hrest | ⟨t, r₅, hrest, h⟩ := Reading.bind_eq_error_iff.1 h
    · refine StuckAt.of_kind ((statements_stuck hrest).bind fun w hw => ⟨[], ?_⟩)
        fun k b hk => if_pos (hk ▸ hstart)
      simpa using hv'.const hw
    · cases h
  · rename_i hstart
    cases h
    refine .here ⟨[.bool true], by simpa using hv'.const (.last .bool)⟩ rfl fun k b hk => ?_
    exact ⟨_, _, if_neg (hk ▸ hstart)⟩
termination_by 2 * s.left + 1

theorem exprStatements_stuck {s r : Cursor} {e : ParseError}
    (h : exprStatements s = ⟨.error e, r⟩) : StuckAt (Derives .stmts) exprStatements s e := by
  obtain hexpr | ⟨t, r₁, hexpr, h⟩ := Reading.bind_eq_error_iff.1 h
  · exact (expr_stuck hexpr).bind_start fun w hw => ⟨[], by simpa using hw.last⟩
  have hle := left_le_of_reading hexpr
  obtain ⟨v, hne, hv, hv'⟩ := expr_replays hexpr
  refine hv.bind_start hne ?_
  by_cases hsemi : r₁.kind = .semicolon
  · obtain ⟨ts, hs⟩ := exists_ahead_of_kind (by decide) hsemi
    have hlt := left_lt_of_cons hs
    simp only [moreStatements, hs] at h
    refine StuckAt.token (g := seqRest s.span.start t) ?_ hs fun k b => rfl
    unfold seqRest at h
    split at h
    · rename_i hstart
      obtain hrest | ⟨u, r₂, hrest, h⟩ := Reading.bind_eq_error_iff.1 h
      · refine StuckAt.of_kind ((statements_stuck hrest).bind fun w hw => ⟨[], ?_⟩)
          fun k b hk => if_pos (hk ▸ hstart)
        simpa using hv'.seq hw
      · cases h
    · cases h
  · rw [moreStatements_of_kind_ne hsemi] at h
    cases h
termination_by 2 * s.left

theorem statements_stuck {s r : Cursor} {e : ParseError}
    (h : (statements s).reading = ⟨.error e, r⟩) :
    StuckAt (Derives .stmts) (fun s => (statements s).reading) s e := by
  by_cases hconst : s.kind = .const
  · obtain ⟨ts, hs⟩ := exists_ahead_of_kind (by decide) hconst
    have hlt := left_lt_of_cons hs
    rw [reading_statements, hs] at h
    exact StuckAt.token (constStatements_stuck h) hs fun k b => reading_statements _
  · rw [statements_of_kind_ne hconst] at h
    exact (exprStatements_stuck h).of_kind fun k b hk => statements_of_kind_ne (hk ▸ hconst)
termination_by 2 * s.left + 1

end

theorem finish_fails {t : Term} {s : Cursor} (h : s.kind ≠ .eof) :
    finish t s = (s.fail .endOfFile).reading := by
  refine if_neg fun hend => h ?_
  rw [Cursor.kind, List.isEmpty_iff.1 hend]
  rfl

theorem program_stuck {s r : Cursor} {e : ParseError} (hs : .eof ∉ s.kinds)
    (h : (program s).reading = ⟨.error e, r⟩) :
    StuckAt (Derives .program) (fun s => (program s).reading) s e := by
  rw [reading_program] at h
  refine StuckAt.of_kind (g := fun s => (statements s).reading.bind finish) ?_
    fun k b _ => reading_program _
  obtain hstmts | ⟨t, r₁, hstmts, h⟩ := Reading.bind_eq_error_iff.1 h
  · exact (statements_stuck hstmts).bind fun w hw => ⟨[], by simpa using hw.program⟩
  obtain ⟨v, hv, hv'⟩ := statements_replays hstmts
  refine hv.bind ?_
  have hend : r₁.kind ≠ .eof := by
    intro hend
    cases hr : r₁.ahead with
    | nil => simp [finish, hr] at h
    | cons c ts =>
      have hc : c.kind = .eof := by simpa [Cursor.kind, hr] using hend
      exact hs (by simp [kinds, hv.passes.ahead, hr, hc])
  rw [finish_fails hend] at h
  cases h
  refine .here ⟨[], by simpa using hv'.program⟩ rfl fun k b hk => ?_
  exact ⟨_, _, finish_fails (hk ▸ hend)⟩

end Parse

/-! ## Token lists -/

namespace Grammar

theorem Derives.eof_not_mem {N : Symbol} {w : List Token.Kind} (h : Derives N w) : .eof ∉ w := by
  induction h <;> simp_all

end Grammar

open Parse

/-- Some program starts with these tokens. -/
def Viable (ts : List Token) : Prop := ∃ us t, Term.parse (ts ++ us) = .ok t

theorem viable_of_derives {ts : List Token} {z : List Token.Kind}
    (h : Derives .program (ts.map (·.kind) ++ z)) : Viable ts := by
  let us : List Token := z.map (⟨·, .zero⟩) ++ [⟨.eof, .zero⟩]
  have hkinds : (ts ++ us).map (·.kind) = ts.map (·.kind) ++ z ++ [.eof] := by
    simp [us, Function.comp_def]
  obtain ⟨t, hstmts⟩ := h.layered
  obtain ⟨u, hu, -⟩ := (parse_iff_statements hkinds h.eof_not_mem).2 hstmts
  exact ⟨us, u, hu⟩

/-- The first `n` kinds of a list are known from its first `n` tokens. -/
theorem take_stream_takeWhile {ts : List Token} (hts : .eof ∉ ts.map (·.kind)) (us : List Token)
    (a : Span) (n : Nat) :
    (stream (((ts ++ [Token.mk .eof a]).take n ++ us).takeWhile (·.kind != .eof))).take n =
      (stream ts).take n := by
  induction ts generalizing n with
  | nil => cases n <;> simp
  | cons t ts ih =>
    cases n with
    | zero => rfl
    | succ n =>
      have ht : t.kind ≠ .eof := fun h => hts (by simp [h])
      have ih := ih (fun h => hts (by simp [h])) n
      simpa [ht, stream_cons] using ih

theorem Parse.Stuck.not_viable {X : List Token.Kind → Prop} {ts u : List Token} {f : Cursor}
    {a : Span} {e : ParseError} {n : Nat} (hts : .eof ∉ ts.map (·.kind))
    (h : Stuck X (fun s => (program s).reading) ⟨ts, a, 0⟩ e u f n) :
    ¬ Viable (u ++ (f.ahead ++ [Token.mk .eof a]).take n) := by
  rintro ⟨us, t, ht⟩
  have hahead : ts = u ++ f.ahead := h.passes.ahead
  rw [hahead, List.map_append, List.mem_append, not_or] at hts
  obtain ⟨e', r, hfail⟩ := h.dead _
    (ofTokens (u ++ (f.ahead ++ [Token.mk .eof a]).take n ++ us)).eof
    (take_stream_takeWhile hts.2 us a n)
  rw [← takeWhile_append_of_eof_not_mem hts.1, ← List.append_assoc] at hfail
  cases ht.symm.trans (congrArg Reading.result hfail)

/-- The token at a cursor and what comes after it, up to the end of the file. -/
theorem exists_at_cursor (f : Cursor) : ∃ t rest, f.ahead ++ [⟨.eof, f.eof⟩] = t :: rest ∧
    f.span = t.span ∧ f.kind = t.kind ∧ (t.kind ≠ .eof → rest ≠ []) := by
  unfold Cursor.span Cursor.kind
  cases f.ahead with
  | nil => exact ⟨_, _, rfl, rfl, rfl, by simp⟩
  | cons t ts => exact ⟨t, _, rfl, rfl, rfl, by simp⟩

/-- The error `e` at the token `t` after `u` is that an empty pair of parentheses is no expression.
An expression could stand in the place of the parentheses. -/
def RefusesEmptyParens (e : ParseError) (u : List Token) (t : Token) : Prop :=
  e.cause = .unexpected .expression .rightParen ∧ t.kind = .rightParen ∧
    ∃ v a, u = v ++ [⟨.leftParen, a⟩] ∧ Viable (v ++ [⟨.bool true, a⟩])

/-- A parse error is about the first token with which no program goes on. The one exception is a
pair of parentheses with nothing in them where an expression is meant: it is refused although an
arrow could follow, and the token after it is the first with which no program goes on. -/
theorem parse_error_earliest (w : List Token.Kind) (hw : .eof ∉ w) (tokens : List Token)
    (h : tokens.map (·.kind) = w ++ [.eof]) (e : ParseError)
    (he : Term.parse tokens = .error e) :
    ∃ u t rest, tokens = u ++ t :: rest ∧ e.span = t.span ∧ Viable u ∧
      (¬ Viable (u ++ [t]) ∨ RefusesEmptyParens e u t ∧ Viable (u ++ [t]) ∧
        ∃ t' rest', rest = t' :: rest' ∧ ¬ Viable (u ++ [t, t'])) := by
  obtain ⟨ts, a, rfl, rfl, hcursor⟩ := exists_ofTokens h hw
  rw [Term.parse, hcursor] at he
  obtain ⟨u, f, n, hstuck⟩ := program_stuck (s := ⟨ts, a, 0⟩)
    (r := (program ⟨ts, a, 0⟩).rest) hw (by rw [Outcome.reading, he])
  have hdead := hstuck.not_viable hw
  obtain rfl : ts = u ++ f.ahead := hstuck.passes.ahead
  obtain ⟨z, hz⟩ := hstuck.completes
  obtain ⟨t, rest, hrest, hspan, hkind, hmore⟩ := exists_at_cursor f
  rw [show f.eof = a from hstuck.passes.eof] at hrest
  rw [hrest] at hdead
  refine ⟨u, t, rest, by rw [List.append_assoc, hrest], hstuck.span.trans hspan,
    viable_of_derives hz, ?_⟩
  obtain rfl | ⟨rfl, hcause, hclose, v, b, rfl, hv⟩ := hstuck.lookahead
  · exact .inl hdead
  right
  obtain ⟨z₁, hz₁⟩ := hv [.bool true] .bool
  obtain ⟨z₂, hz₂⟩ := hv [.leftParen, .rightParen, .fatArrow, .bool true] (.arrow .noParams .bool)
  rw [hkind] at hclose
  refine ⟨⟨hcause, hclose, v, b, rfl, viable_of_derives (z := z₁) ?_⟩,
    viable_of_derives (z := .fatArrow :: .bool true :: z₂) ?_, ?_⟩
  · simpa using hz₁
  · simpa [hclose] using hz₂
  · obtain ⟨t', rest', rfl⟩ := List.exists_cons_of_ne_nil (hmore (by simp [hclose]))
    exact ⟨t', rest', rfl, hdead⟩

/-- `f(())` is refused at its first closing parenthesis. -/
theorem parse_error_earliest_call :
    let tokens : List Token := [⟨.ident "f", ⟨0, 1⟩⟩, ⟨.leftParen, ⟨1, 2⟩⟩, ⟨.leftParen, ⟨2, 3⟩⟩,
      ⟨.rightParen, ⟨3, 4⟩⟩, ⟨.rightParen, ⟨4, 5⟩⟩, ⟨.eof, ⟨5, 5⟩⟩]
    let e : ParseError := ⟨.unexpected .expression .rightParen, ⟨3, 4⟩⟩
    Term.parse tokens = .error e ∧ ∃ u t rest, tokens = u ++ t :: rest ∧ e.span = t.span ∧
      Viable u ∧ (¬ Viable (u ++ [t]) ∨ RefusesEmptyParens e u t ∧ Viable (u ++ [t]) ∧
        ∃ t' rest', rest = t' :: rest' ∧ ¬ Viable (u ++ [t, t'])) := by
  intro tokens e
  have he : Term.parse tokens = .error e := by with_unfolding_all rfl
  exact ⟨he, parse_error_earliest
    [.ident "f", .leftParen, .leftParen, .rightParen, .rightParen] (by decide) tokens rfl e he⟩

end ArrowLang
