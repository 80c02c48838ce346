import ArrowLang.Proofs.Grammar.Written
import ArrowLang.Proofs.Reading

/-!
# What the parser reads is in the grammar

If a function of the parser succeeds, the tokens that it passed write what it returns. The
expression functions also stop only where the expression cannot go on, and this is why an arrow
function can only be the last operand: its body stopped there.
-/

namespace ArrowLang

namespace Parse

open Cursor Outcome Grammar

/-! ## Types -/

mutual

theorem typeExpr_written {s r : Cursor} {T : TypeExpr} (h : (typeExpr s).reading = ⟨.ok T, r⟩) :
    ∃ u, s.Passes u r ∧ r.nextId = s.nextId ∧ Written.Annotation u T := by
  rw [reading_typeExpr] at h
  split at h
  · rename_i name a ts hs
    split at h
    · rename_i hname
      cases h
      exact ⟨_, passes_of_ahead hs, rfl, hname ▸ .boolean⟩
    · split at h
      · rename_i hname
        cases h
        exact ⟨_, passes_of_ahead hs, rfl, hname ▸ .number⟩
      · cases h
  · rename_i a ts hs
    simp only [functionType, Reading.bind_eq_ok_iff] at h
    obtain ⟨ps, r₁, hps, c, r₂, harrow, result, r₃, hresult, ⟨⟩⟩ := h
    have hopen := passes_of_ahead hs
    obtain ⟨harrow, harrow'⟩ := passes_of_expect harrow
    have hlt := hopen.left_lt
    have hle := left_le_of_reading hps
    have hle' := harrow.left_lt
    obtain ⟨u, b, hu, hps', hparams⟩ := params_written hps
    obtain ⟨v, hv, hresult', hann⟩ := typeExpr_written hresult
    refine ⟨_, ?_, by rw [hresult', harrow', hps'],
      .function (b := b) (c := c) hparams hann⟩
    simpa using hopen.trans (hu.trans (harrow.trans hv))
  · cases h
termination_by 2 * s.left

theorem params_written {s r : Cursor} {ps : List ParamDecl}
    (h : (params s).reading = ⟨.ok ps, r⟩) :
    ∃ u b, s.Passes (u ++ [⟨.rightParen, b⟩]) r ∧ r.nextId = s.nextId ∧ Written.Params u ps := by
  rw [reading_params] at h
  split at h
  · rename_i b ts hs
    cases h
    exact ⟨[], b, passes_of_ahead hs, rfl, .nil⟩
  · simp only [someParams, paramType, Reading.bind_eq_ok_iff] at h
    obtain ⟨x, r₁, hx, d, r₂, hcolon, T, r₃, hT, h⟩ := h
    obtain ⟨hx, hx'⟩ := passes_of_expectName hx
    obtain ⟨hcolon, hcolon'⟩ := passes_of_expect hcolon
    have hlt := hx.left_lt
    have hle := hcolon.left_lt
    have hle' := left_le_of_reading hT
    obtain ⟨u, hu, hT', hann⟩ := typeExpr_written hT
    have hparam := hx.trans (hcolon.trans hu)
    have hid : r₃.nextId = s.nextId := by rw [hT', hcolon', hx']
    unfold moreParams at h
    split at h
    · rename_i c ts hs
      simp only [Reading.bind_eq_ok_iff] at h
      obtain ⟨qs, r₄, hqs, ⟨⟩⟩ := h
      have hcomma := passes_of_ahead hs
      have hlt' := hcomma.left_lt
      obtain ⟨v, b, hv, hqs', hparams⟩ := params_written hqs
      refine ⟨_, b, ?_, hqs'.trans hid, .cons (a := s.span) (b := d) (c := c) hann hparams⟩
      simpa using hparam.trans (hcomma.trans hv)
    · simp only [Reading.bind_eq_ok_iff] at h
      obtain ⟨b, r₄, hclose, ⟨⟩⟩ := h
      obtain ⟨hclose, hclose'⟩ := passes_of_expect hclose
      refine ⟨_, b, ?_, hclose'.trans hid, .last (a := s.span) (b := d) hann⟩
      simpa using hparam.trans hclose
termination_by 2 * s.left + 1

end

/-! ## Expressions -/

/-- A token of kind `k` may come after an operand: no argument list goes on, and after an arrow
function nothing of its expression does. -/
def Stops (o : Bool) (k : Token.Kind) : Prop := k ≠ .leftParen ∧ (o = true → Ends k)

/-- What goes on after an arrow function would have been taken by its body. -/
theorem Stops.eq_false {o : Bool} {k : Token.Kind} (h : Stops o k) (hk : ¬ Ends k) : o = false := by
  cases o with
  | false => rfl
  | true => exact absurd (h.2 rfl) hk

theorem start_eq_of_passes {s r : Cursor} {u : List Token} (h : s.Passes u r) (hu : u ≠ []) :
    s.span.start = Written.start u := by
  cases u with
  | nil => contradiction
  | cons => simp [Cursor.span, h.ahead, Written.start]

mutual

theorem expr_written {s r : Cursor} {t : Term} (h : (expr s).reading = ⟨.ok t, r⟩) :
    ∃ u, s.Passes u r ∧ Written.Expr s.nextId u t r.nextId ∧ Ends r.kind := by
  rw [reading_expr] at h
  obtain ⟨sum, r₁, hsum, h⟩ := Reading.bind_eq_ok_iff.1 h
  have hle := left_le_of_sum hsum
  obtain ⟨o, u, hu, hstart, hsum, hstop, hplus⟩ := sum_written hsum
  unfold afterSum at h
  split at h
  · rename_i a ts hs
    simp only [branches, Reading.bind_eq_ok_iff] at h
    obtain ⟨yes, r₂, hyes, b, r₃, hcolon, no, r₄, hno, ⟨⟩⟩ := h
    have hquestion := passes_of_ahead hs
    obtain ⟨hcolon, hcolon'⟩ := passes_of_expect hcolon
    have hlt := hquestion.left_lt
    have hle₂ := left_le_of_reading hyes
    have hle₃ := hcolon.left_lt
    obtain ⟨v, hv, hyes, -⟩ := expr_written hyes
    obtain ⟨w, hw, hno, hends⟩ := expr_written hno
    obtain rfl := hstop.eq_false (by simp [kind_of_ahead hs, Ends])
    rw [hcolon'] at hno
    have hcond := Written.Expr.cond (a := a) (b := b) hsum hyes hno
    rw [← hstart] at hcond
    refine ⟨_, ?_, hcond, hends⟩
    simpa using hu.trans (hquestion.trans (hv.trans (hcolon.trans hw.tick)))
  · rename_i hne
    cases h
    exact ⟨u, hu, .sum hsum, hstop.1, hplus, kind_ne_of_ahead_ne (by decide) hne⟩
termination_by 5 * s.left + 3

theorem sum_written {s r : Cursor} {t : Term} (h : sum s.span.start s = ⟨.ok t, r⟩) :
    ∃ o u, s.Passes u r ∧ s.span.start = Written.start u ∧ Written.Sum o s.nextId u t r.nextId ∧
      Stops o r.kind ∧ r.kind ≠ .plus := by
  obtain ⟨first, r₀, hfirst, hadds⟩ := Reading.bind_eq_ok_iff.1 h
  have hle := left_le_of_reading hfirst
  obtain ⟨o, u, hu, hop, hstop⟩ := operand_written hfirst
  have hne := Written.ne_nil_of_opens hop.shape.opens
  have hstart := start_eq_of_passes hu hne
  obtain ⟨o', v, hv, hsum, hrest⟩ := addends_written hstart (.operand hop) hstop hadds
  exact ⟨o', u ++ v, hu.trans hv, by rw [Written.start_append hne, hstart], hsum, hrest⟩
termination_by 5 * s.left + 2

theorem addends_written {start i : Nat} {sum t : Term} {s r : Cursor} {o : Bool} {u : List Token}
    (hstart : start = Written.start u) (hsum : Written.Sum o i u sum s.nextId)
    (hstop : Stops o s.kind) (h : (addends start sum s).reading = ⟨.ok t, r⟩) :
    ∃ o' v, s.Passes v r ∧ Written.Sum o' i (u ++ v) t r.nextId ∧ Stops o' r.kind ∧
      r.kind ≠ .plus := by
  rw [reading_addends] at h
  split at h
  · rename_i a ts hs
    obtain ⟨next, r₁, hnext, h⟩ := Reading.bind_eq_ok_iff.1 h
    have hplus := passes_of_ahead hs
    have hlt := hplus.left_lt
    have hle := left_le_of_reading hnext
    obtain ⟨o₁, v, hv, hop, hstop₁⟩ := operand_written hnext
    obtain rfl := hstop.eq_false (by simp [kind_of_ahead hs, Ends])
    have hadd := Written.Sum.add (a := a) hsum hop
    rw [← hstart] at hadd
    have hstart' : start = Written.start (u ++ ⟨.plus, a⟩ :: v) := by
      rw [Written.start_append (Written.ne_nil_of_opens hsum.shape.opens), hstart]
    obtain ⟨o', w, hw, hsum', hrest⟩ := addends_written (s := r₁.tick) hstart' hadd hstop₁ h
    refine ⟨o', ⟨.plus, a⟩ :: v ++ w, ?_, by simpa using hsum', hrest⟩
    simpa using hplus.trans (hv.tick.trans hw)
  · rename_i hne
    cases h
    exact ⟨o, [], passes_nil s, by simpa using hsum, hstop, kind_ne_of_ahead_ne (by decide) hne⟩
termination_by 5 * s.left

theorem operand_written {s r : Cursor} {t : Term} (h : (operand s).reading = ⟨.ok t, r⟩) :
    ∃ o u, s.Passes u r ∧ Written.Operand o s.nextId u t r.nextId ∧ Stops o r.kind := by
  rw [reading_operand] at h
  obtain ⟨callee, r₁, hcallee, h⟩ := Reading.bind_eq_ok_iff.1 h
  have hle := left_le_of_reading hcallee
  obtain ⟨u, hu, hatom | ⟨harrow, hends⟩⟩ := atom_written hcallee
  · obtain ⟨v, hv, hcall, hstop⟩ := calls_written (.atom hatom) h
    exact ⟨false, u ++ v, hu.trans hv, .closed hcall, hstop, by simp⟩
  · rw [calls_of_kind_ne hends.1] at h
    cases h
    exact ⟨true, u, hu, harrow, hends.1, fun _ => hends⟩
termination_by 5 * s.left + 1

theorem calls_written {i : Nat} {callee t : Term} {s r : Cursor} {u : List Token}
    (hcallee : Written.Postfix i u callee s.nextId)
    (h : (calls callee s).reading = ⟨.ok t, r⟩) :
    ∃ v, s.Passes v r ∧ Written.Postfix i (u ++ v) t r.nextId ∧ r.kind ≠ .leftParen := by
  rw [reading_calls] at h
  split at h
  · rename_i a ts hs
    obtain ⟨⟨as, close⟩, r₁, hargs, h⟩ := Reading.bind_eq_ok_iff.1 h
    have hopen := passes_of_ahead hs
    have hlt := hopen.left_lt
    have hle := left_le_of_reading hargs
    obtain ⟨v, hv, hargs⟩ := args_written hargs
    obtain ⟨w, hw, hcall, hstop⟩ := calls_written (s := r₁.tick) (.call (a := a) hcallee hargs) h
    refine ⟨⟨.leftParen, a⟩ :: v ++ ⟨.rightParen, close⟩ :: w, ?_, by simpa using hcall, hstop⟩
    simpa using hopen.trans (hv.tick.trans hw)
  · rename_i hne
    cases h
    exact ⟨[], passes_nil s, by simpa using hcallee, kind_ne_of_ahead_ne (by decide) hne⟩
termination_by 5 * s.left

theorem args_written {s r : Cursor} {as : List Term} {close : Span}
    (h : (args s).reading = ⟨.ok (as, close), r⟩) :
    ∃ u, s.Passes (u ++ [⟨.rightParen, close⟩]) r ∧ Written.Args s.nextId u as r.nextId := by
  rw [reading_args] at h
  split at h
  · rename_i a ts hs
    cases h
    exact ⟨[], passes_of_ahead hs, .nil⟩
  · obtain ⟨a, r₁, ha, h⟩ := Reading.bind_eq_ok_iff.1 h
    have hle := left_le_of_reading ha
    obtain ⟨u, hu, ha, -⟩ := expr_written ha
    unfold moreArgs at h
    split at h
    · rename_i c ts hs
      obtain ⟨⟨bs, close'⟩, r₂, hbs, h⟩ := Reading.bind_eq_ok_iff.1 h
      cases h
      have hcomma := passes_of_ahead hs
      have hlt := hcomma.left_lt
      obtain ⟨v, hv, hbs⟩ := args_written hbs
      refine ⟨u ++ ⟨.comma, c⟩ :: v, ?_, .cons ha hbs⟩
      simpa using hu.trans (hcomma.trans hv)
    · obtain ⟨close', r₂, hclose, h⟩ := Reading.bind_eq_ok_iff.1 h
      cases h
      obtain ⟨hclose, hclose'⟩ := passes_of_expect hclose
      exact ⟨u, hu.trans hclose, hclose' ▸ .last ha⟩
termination_by 5 * s.left + 4

theorem atom_written {s r : Cursor} {t : Term} (h : (atom s).reading = ⟨.ok t, r⟩) :
    ∃ u, s.Passes u r ∧ (Written.Atom s.nextId u t r.nextId ∨
      Written.Operand true s.nextId u t r.nextId ∧ Ends r.kind) := by
  rw [reading_atom] at h
  split at h
  · rename_i v a ts hs
    cases h
    exact ⟨_, (passes_of_ahead hs).tick, .inl .number⟩
  · rename_i v a ts hs
    cases h
    exact ⟨_, (passes_of_ahead hs).tick, .inl .bool⟩
  · rename_i x a ts hs
    cases h
    exact ⟨_, (passes_of_ahead hs).tick, .inl .var⟩
  · rename_i a ts hs
    have hopen := passes_of_ahead hs
    have hlt := hopen.left_lt
    split at h
    · simp only [arrow, Reading.bind_eq_ok_iff] at h
      obtain ⟨ps, r₁, hps, c, r₂, harrow, body, r₃, hbody, ⟨⟩⟩ := h
      obtain ⟨harrow, harrow'⟩ := passes_of_expect harrow
      have hle := left_le_of_reading hps
      have hle' := harrow.left_lt
      obtain ⟨u, b, hu, hps', hparams⟩ := params_written hps
      obtain ⟨v, hv, hbody, hends⟩ := expr_written hbody
      rw [harrow', hps'] at hbody
      refine ⟨_, ?_, .inr ⟨.arrow (a := a) (b := b) (c := c) hparams hbody, hends⟩⟩
      simpa using hopen.trans (hu.trans (harrow.trans hv.tick))
    · simp only [parens, Reading.bind_eq_ok_iff] at h
      obtain ⟨inner, r₁, hinner, b, r₂, hclose, ⟨⟩⟩ := h
      obtain ⟨hclose, hclose'⟩ := passes_of_expect hclose
      obtain ⟨u, hu, hinner, -⟩ := expr_written hinner
      refine ⟨⟨.leftParen, a⟩ :: u ++ [⟨.rightParen, b⟩], ?_, .inl (hclose' ▸ .paren hinner)⟩
      simpa using hopen.trans (hu.trans hclose)
  · cases h
termination_by 5 * s.left

end

/-! ## Statements -/

/-- A token of kind `k` may come after statements that end with the trailing tokens `v`. -/
def Finishes (v : List Token) (k : Token.Kind) : Prop :=
  (v = [] → Ends k ∧ k ≠ .semicolon) ∧ (v ≠ [] → startsStatement k = false)

theorem statements_written {s r : Cursor} {t : Term} (h : (statements s).reading = ⟨.ok t, r⟩) :
    ∃ u v, s.Passes (u ++ v) r ∧ Written.Trailing v ∧ Finishes v r.kind ∧
      Written.Statements s.nextId u t r.nextId := by
  rw [reading_statements] at h
  split at h
  · rename_i a ts hs
    simp only [constStatements, Reading.bind_eq_ok_iff] at h
    obtain ⟨x, r₁, hx, c, r₂, hequals, init, r₃, hinit, d, r₄, hsemi, h⟩ := h
    unfold constBody at h
    split at h
    · obtain ⟨rest, r₅, hrest, h⟩ := Reading.bind_eq_ok_iff.1 h
      cases h
      have hconst := passes_of_ahead hs
      obtain ⟨hx, hx'⟩ := passes_of_expectName hx
      obtain ⟨hequals, hequals'⟩ := passes_of_expect hequals
      obtain ⟨hsemi, hsemi'⟩ := passes_of_expect hsemi
      have hlt := hconst.left_lt
      have hle₁ := hx.left_lt
      have hle₂ := hequals.left_lt
      have hle₃ := left_le_of_reading hinit
      have hle₄ := hsemi.left_lt
      obtain ⟨u, hu, hinit, -⟩ := expr_written hinit
      obtain ⟨v, w, hv, hw, hfin, hrest⟩ := statements_written hrest
      rw [hequals', hx'] at hinit
      rw [hsemi'] at hrest
      refine ⟨_, w, ?_, hw, hfin, .const (a := a) (b := ({ s with ahead := ts } : Cursor).span)
        (c := c) (d := d) hinit hrest⟩
      simpa using hconst.trans (hx.trans (hequals.trans (hu.trans (hsemi.trans hv.tick))))
    · cases h
  · obtain ⟨body, r₁, hbody, h⟩ := Reading.bind_eq_ok_iff.1 h
    have hle := left_le_of_reading hbody
    obtain ⟨u, hu, hexpr, hends⟩ := expr_written hbody
    unfold moreStatements at h
    split at h
    · rename_i a ts hs
      have hsemi := passes_of_ahead hs
      unfold seqRest at h
      split at h
      · obtain ⟨rest, r₂, hrest, h⟩ := Reading.bind_eq_ok_iff.1 h
        cases h
        have hlt := hsemi.left_lt
        obtain ⟨v, w, hv, hw, hfin, hrest⟩ := statements_written hrest
        have hseq := Written.Statements.seq (a := a) hexpr hrest
        rw [← start_eq_of_passes hu (Written.ne_nil_of_opens hexpr.shape.opens)] at hseq
        refine ⟨_, w, ?_, hw, hfin, hseq⟩
        simpa using hu.trans (hsemi.trans hv.tick)
      · rename_i hrest
        cases h
        exact ⟨u, [⟨.semicolon, a⟩], hu.trans hsemi, .inr ⟨a, rfl⟩, by simpa [Finishes] using hrest,
          .last hexpr⟩
    · rename_i hne
      cases h
      exact ⟨u, [], by simpa using hu, .inl rfl,
        ⟨fun _ => ⟨hends, kind_ne_of_ahead_ne (by decide) hne⟩, by simp⟩, .last hexpr⟩
termination_by s.left

theorem program_written {s r : Cursor} {t : Term} (h : (program s).reading = ⟨.ok t, r⟩) :
    ∃ u v, s.ahead = u ++ v ∧ Written.Trailing v ∧ Written.Statements s.nextId u t r.nextId := by
  rw [reading_program] at h
  obtain ⟨t', r', hstmts, h⟩ := Reading.bind_eq_ok_iff.1 h
  unfold finish at h
  split at h
  · rename_i hend
    cases h
    obtain ⟨u, v, hw, hv, -, hstmts⟩ := statements_written hstmts
    have hnil : r.ahead = [] := by simpa using hend
    exact ⟨u, v, by rw [hw.ahead, hnil, List.append_nil], hv, hstmts⟩
  · cases h

end Parse

end ArrowLang
