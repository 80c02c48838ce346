import ArrowLang.Proofs.Grammar.Complete
import ArrowLang.Proofs.Subterms

/-!
# Where a term stands

The tokens of a term reach from its first to its last without a gap: a term below it is written by
some of them that follow one another (`Part`), and if the tokens are in order, the span of a term
goes from the start of its first token to the end of its last (`extent`). Where the same tokens
stand further on, they write the same term further on (`Term.shift`).
-/

namespace ArrowLang

/-! ## Terms further on -/

def Span.shift (d : Nat) (s : Span) : Span := ⟨s.start + d, s.stop + d⟩

/-- All of one span is in the other. -/
def Span.Contains (a b : Span) : Prop := a.start ≤ b.start ∧ b.stop ≤ a.stop

@[simp] theorem Span.shift_mk (d x y : Nat) : Span.shift d ⟨x, y⟩ = ⟨x + d, y + d⟩ := rfl

@[simp] theorem Span.start_shift (d : Nat) (s : Span) : (s.shift d).start = s.start + d := rfl

@[simp] theorem Span.stop_shift (d : Nat) (s : Span) : (s.shift d).stop = s.stop + d := rfl

theorem Span.join_shift (a b : Span) (d : Nat) :
    (a.shift d).join (b.shift d) = (a.join b).shift d := by
  simp [Span.join, Span.shift, Nat.add_min_add_right, Nat.add_max_add_right]

def Token.shift (d : Nat) (t : Token) : Token := ⟨t.kind, t.span.shift d⟩

@[simp] theorem Token.shift_mk (d : Nat) (k : Token.Kind) (s : Span) :
    Token.shift d ⟨k, s⟩ = ⟨k, s.shift d⟩ := rfl

mutual

def TypeExpr.shift (d : Nat) : TypeExpr → TypeExpr
  | .boolean s => .boolean (s.shift d)
  | .number s => .number (s.shift d)
  | .function s ps r => .function (s.shift d) (ParamDecl.shiftAll d ps) (r.shift d)

def ParamDecl.shiftAll (d : Nat) : List ParamDecl → List ParamDecl
  | [] => []
  | ⟨x, t, s⟩ :: ps => ⟨x, t.shift d, s.shift d⟩ :: ParamDecl.shiftAll d ps

end

def Node.shift (d k : Nat) (n : Node) : Node := ⟨n.id + k, n.span.shift d⟩

namespace Term

mutual

/-- The same term `d` bytes further on, with numbers that are higher by `k`. -/
def shift (d k : Nat) : Term → Term
  | bool n v => bool (n.shift d k) v
  | number n v => number (n.shift d k) v
  | var n x => var (n.shift d k) x
  | add n l r => add (n.shift d k) (shift d k l) (shift d k r)
  | cond n c y e => cond (n.shift d k) (shift d k c) (shift d k y) (shift d k e)
  | func n ps b => func (n.shift d k) (ParamDecl.shiftAll d ps) (shift d k b)
  | call n f as => call (n.shift d k) (shift d k f) (shiftAll d k as)
  | seq n b r => seq (n.shift d k) (shift d k b) (shift d k r)
  | const n x i r => const (n.shift d k) x (shift d k i) (shift d k r)

def shiftAll (d k : Nat) : List Term → List Term
  | [] => []
  | t :: ts => shift d k t :: shiftAll d k ts

end

theorem node_shift (d k : Nat) (t : Term) : (t.shift d k).node = t.node.shift d k := by
  cases t <;> rfl

@[simp] theorem span_shift (d k : Nat) (t : Term) : (t.shift d k).span = t.span.shift d := by
  rw [span, node_shift]
  rfl

theorem shift_withSpan (d k : Nat) (s : Span) (t : Term) :
    (t.withSpan s).shift d k = (t.shift d k).withSpan (s.shift d) := by
  cases t <;> rfl

end Term

@[simp] theorem TypeExpr.span_shift (d : Nat) (T : TypeExpr) :
    (T.shift d).span = T.span.shift d := by
  cases T <;> rfl

namespace Written

mutual

theorem Annotation.shift {ts : List Token} {T : TypeExpr} (d : Nat) :
    Annotation ts T → Annotation (ts.map (Token.shift d)) (T.shift d)
  | .boolean => .boolean
  | .number => .number
  | .function (a := a) (b := b) (c := c) hps hann => by
    simpa [TypeExpr.shift] using Annotation.function (a := a.shift d) (b := b.shift d)
      (c := c.shift d) (hps.shift d) (hann.shift d)

theorem Params.shift {ts : List Token} {ps : List ParamDecl} (d : Nat) :
    Params ts ps → Params (ts.map (Token.shift d)) (ParamDecl.shiftAll d ps)
  | .nil => .nil
  | .last (x := x) (a := a) (b := b) hann => by
    simpa [ParamDecl.shiftAll] using Params.last (x := x) (a := a.shift d) (b := b.shift d)
      (hann.shift d)
  | .cons (x := x) (a := a) (b := b) (c := c) hann hps => by
    simpa [ParamDecl.shiftAll] using Params.cons (x := x) (a := a.shift d) (b := b.shift d)
      (c := c.shift d) (hann.shift d) (hps.shift d)

end

/-- Sums, conditionals and sequences take their start from the tokens of their first part. -/
theorem start_shift {ts : List Token} (h : Grammar.Opens (ts.map (·.kind))) (d : Nat) :
    start (ts.map (Token.shift d)) = start ts + d := by
  cases ts with
  | nil => cases h
  | cons => rfl

mutual

theorem Expr.shift {i j : Nat} {ts : List Token} {t : Term} (d k : Nat) :
    Expr i ts t j → Expr (i + k) (ts.map (Token.shift d)) (t.shift d k) (j + k)
  | .sum hsum => .sum (hsum.shift d k)
  | .cond (a := a) (b := b) hsum hyes hno => by
    have h := Expr.cond (a := a.shift d) (b := b.shift d) (hsum.shift d k) (hyes.shift d k)
      (hno.shift d k)
    rw [start_shift hsum.shape.opens] at h
    simpa [Term.shift, Node.shift, Nat.add_right_comm] using h

theorem Sum.shift {o : Bool} {i j : Nat} {ts : List Token} {t : Term} (d k : Nat) :
    Sum o i ts t j → Sum o (i + k) (ts.map (Token.shift d)) (t.shift d k) (j + k)
  | .operand hop => .operand (hop.shift d k)
  | .add (a := a) hsum hop => by
    have h := Sum.add (a := a.shift d) (hsum.shift d k) (hop.shift d k)
    rw [start_shift hsum.shape.opens] at h
    simpa [Term.shift, Node.shift, Nat.add_right_comm] using h

theorem Operand.shift {o : Bool} {i j : Nat} {ts : List Token} {t : Term} (d k : Nat) :
    Operand o i ts t j → Operand o (i + k) (ts.map (Token.shift d)) (t.shift d k) (j + k)
  | .closed hpost => .closed (hpost.shift d k)
  | .arrow (a := a) (b := b) (c := c) hps hbody => by
    simpa [Term.shift, Node.shift, Nat.add_right_comm] using Operand.arrow (a := a.shift d)
      (b := b.shift d) (c := c.shift d) (hps.shift d) (hbody.shift d k)

theorem Postfix.shift {i j : Nat} {ts : List Token} {t : Term} (d k : Nat) :
    Postfix i ts t j → Postfix (i + k) (ts.map (Token.shift d)) (t.shift d k) (j + k)
  | .atom hatom => .atom (hatom.shift d k)
  | .call (a := a) (b := b) hpost hargs => by
    have h := Postfix.call (a := a.shift d) (b := b.shift d) (hpost.shift d k) (hargs.shift d k)
    rw [Term.span_shift, Span.join_shift] at h
    simpa [Term.shift, Node.shift, Nat.add_right_comm] using h

theorem Atom.shift {i j : Nat} {ts : List Token} {t : Term} (d k : Nat) :
    Atom i ts t j → Atom (i + k) (ts.map (Token.shift d)) (t.shift d k) (j + k)
  | .number => by rw [Nat.add_right_comm]; exact .number
  | .bool => by rw [Nat.add_right_comm]; exact .bool
  | .var => by rw [Nat.add_right_comm]; exact .var
  | .paren (a := a) (b := b) hexpr => by
    have h := Atom.paren (a := a.shift d) (b := b.shift d) (hexpr.shift d k)
    rw [Span.join_shift, ← Term.shift_withSpan] at h
    simpa using h

theorem Args.shift {i j : Nat} {ts : List Token} {as : List Term} (d k : Nat) :
    Args i ts as j → Args (i + k) (ts.map (Token.shift d)) (Term.shiftAll d k as) (j + k)
  | .nil => .nil
  | .last hexpr => .last (hexpr.shift d k)
  | .cons (a := a) hexpr hargs => by
    simpa [Term.shiftAll] using Args.cons (a := a.shift d) (hexpr.shift d k) (hargs.shift d k)

end

theorem Statements.shift {i j : Nat} {ts : List Token} {t : Term} (d k : Nat)
    (h : Statements i ts t j) :
    Statements (i + k) (ts.map (Token.shift d)) (t.shift d k) (j + k) := by
  induction h with
  | last hexpr => exact .last (hexpr.shift d k)
  | @seq i j l a u v b r hexpr _ ih =>
    have h := Statements.seq (a := a.shift d) (hexpr.shift d k) ih
    rw [start_shift hexpr.shape.opens] at h
    simpa [Term.shift, Node.shift, Nat.add_right_comm] using h
  | @const i j l a b c e u v x t r hexpr _ ih =>
    simpa [Term.shift, Node.shift, Nat.add_right_comm] using Statements.const (x := x)
      (a := a.shift d) (b := b.shift d) (c := c.shift d) (d := e.shift d) (hexpr.shift d k) ih

/-! ## From the first token to the last -/

/-- Where the last token stops. -/
def stop (ts : List Token) : Nat := (ts.getLast?.map (·.span.stop)).getD 0

/-- From the start of the first token to the end of the last. -/
def extent (ts : List Token) : Span := ⟨start ts, stop ts⟩

theorem stop_append {u v : List Token} (hv : v ≠ []) : stop (u ++ v) = stop v := by
  obtain ⟨w, b, rfl⟩ := List.eq_nil_or_concat v |>.resolve_left hv
  simp [stop]

theorem extent_append_cons {u v : List Token} {t : Token} (hu : u ≠ []) (hv : v ≠ []) :
    extent (u ++ t :: v) = ⟨start u, stop v⟩ := by
  rw [extent, start_append hu, List.append_cons, stop_append hv]

theorem exists_start_eq {ts : List Token} (h : ts ≠ []) : ∃ t ∈ ts, start ts = t.span.start := by
  cases ts with
  | nil => contradiction
  | cons t ts => exact ⟨t, by simp, rfl⟩

theorem exists_stop_eq {ts : List Token} (h : ts ≠ []) : ∃ t ∈ ts, stop ts = t.span.stop := by
  obtain ⟨u, t, rfl⟩ := List.eq_nil_or_concat ts |>.resolve_left h
  exact ⟨t, by simp, by simp [stop]⟩

/-- No token starts or stops before one that stands before it. -/
def InOrder (ts : List Token) : Prop :=
  ts.Pairwise fun a b => a.span.start ≤ b.span.start ∧ a.span.stop ≤ b.span.stop

theorem InOrder.mono {us ts : List Token} (h : InOrder ts) (hus : us <:+: ts) : InOrder us :=
  h.sublist hus.sublist

theorem InOrder.left {u v : List Token} (h : InOrder (u ++ v)) : InOrder u :=
  (List.pairwise_append.1 h).1

theorem InOrder.right {u v : List Token} {t : Token} (h : InOrder (u ++ t :: v)) : InOrder v :=
  (List.pairwise_append.1 h).2.1.of_cons

theorem InOrder.start_le {u v w : List Token} (h : InOrder (u ++ v ++ w)) (hv : v ≠ []) :
    start (u ++ v ++ w) ≤ start v := by
  by_cases hu : u = []
  · simp [hu, start_append hv]
  · obtain ⟨a, ha, hstart⟩ := exists_start_eq hu
    obtain ⟨b, hb, hstart'⟩ := exists_start_eq hv
    rw [List.append_assoc, start_append hu, hstart, hstart']
    rw [List.append_assoc] at h
    exact ((List.pairwise_append.1 h).2.2 a ha b (by simp [hb])).1

theorem InOrder.le_stop {u v w : List Token} (h : InOrder (u ++ v ++ w)) (hv : v ≠ []) :
    stop v ≤ stop (u ++ v ++ w) := by
  by_cases hw : w = []
  · simp [hw, stop_append hv]
  · obtain ⟨a, ha, hstop⟩ := exists_stop_eq hv
    obtain ⟨b, hb, hstop'⟩ := exists_stop_eq hw
    rw [stop_append hw, hstop, hstop']
    exact ((List.pairwise_append.1 h).2.2 a (by simp [ha]) b hb).2

theorem InOrder.contains_extent {us ts : List Token} (h : InOrder ts) (hus : us <:+: ts)
    (hne : us ≠ []) : (extent ts).Contains (extent us) := by
  obtain ⟨u, w, rfl⟩ := hus
  exact ⟨h.start_le hne, h.le_stop hne⟩

/-- Calls and parentheses join the span of what they start with and that of their last token. -/
theorem InOrder.join_extent {u v : List Token} {b : Token} (h : InOrder (u ++ v ++ [b]))
    (hu : u ≠ []) : (extent u).join b.span = extent (u ++ v ++ [b]) := by
  have hstart : start u ≤ b.span.start := by
    obtain ⟨a, ha, hstart⟩ := exists_start_eq hu
    rw [hstart]
    exact ((List.pairwise_append.1 h).2.2 a (by simp [ha]) b (by simp)).1
  have hstop : stop u ≤ stop (u ++ v ++ [b]) := by
    rw [List.append_assoc] at h ⊢
    exact InOrder.le_stop (u := []) h hu
  rw [stop_append (by simp)] at hstop
  rw [extent, extent, Span.join, List.append_assoc, start_append hu, ← List.append_assoc,
    stop_append (by simp), Nat.min_eq_left hstart]
  exact congrArg (Span.mk _) (Nat.max_eq_right hstop)

/-! ## The span of a term -/

theorem Annotation.ne_nil {ts : List Token} {T : TypeExpr} (h : Annotation ts T) : ts ≠ [] := by
  cases h <;> simp

theorem Annotation.span_eq {ts : List Token} {T : TypeExpr} (h : Annotation ts T) :
    T.span = extent ts := by
  cases h with
  | boolean | number => rfl
  | function hps hann =>
    rw [List.append_cons, extent_append_cons (by simp) hann.ne_nil, TypeExpr.span, hann.span_eq]
    rfl

theorem Expr.ne_nil {i j : Nat} {ts : List Token} {t : Term} (h : Expr i ts t j) : ts ≠ [] :=
  ne_nil_of_opens h.shape.opens

mutual

theorem Expr.span_eq {i j : Nat} {ts : List Token} {t : Term} :
    Expr i ts t j → InOrder ts → t.span = extent ts
  | .sum hsum, h => hsum.span_eq h
  | .cond hsum hyes hno, h => by
    have hne := ne_nil_of_opens hsum.shape.opens
    rw [extent_append_cons (by simp) hno.ne_nil, start_append hne, Term.span, Term.node,
      hno.span_eq h.right]
    rfl

theorem Sum.span_eq {o : Bool} {i j : Nat} {ts : List Token} {t : Term} :
    Sum o i ts t j → InOrder ts → t.span = extent ts
  | .operand hop, h => hop.span_eq h
  | .add hsum hop, h => by
    rw [extent_append_cons (ne_nil_of_opens hsum.shape.opens) (ne_nil_of_opens hop.shape.opens),
      Term.span, Term.node, hop.span_eq h.right]
    rfl

theorem Operand.span_eq {o : Bool} {i j : Nat} {ts : List Token} {t : Term} :
    Operand o i ts t j → InOrder ts → t.span = extent ts
  | .closed hpost, h => hpost.span_eq h
  | .arrow hps hbody, h => by
    rw [List.append_cons] at h ⊢
    rw [extent_append_cons (by simp) hbody.ne_nil, Term.span, Term.node, hbody.span_eq h.right]
    rfl

theorem Postfix.span_eq {i j : Nat} {ts : List Token} {t : Term} :
    Postfix i ts t j → InOrder ts → t.span = extent ts
  | .atom hatom, h => hatom.span_eq h
  | .call hpost hargs, h => by
    rw [Term.span, Term.node, hpost.span_eq h.left.left]
    exact h.join_extent (ne_nil_of_opens hpost.shape.opens)

theorem Atom.span_eq {i j : Nat} {ts : List Token} {t : Term} :
    Atom i ts t j → InOrder ts → t.span = extent ts
  | .number, _ => rfl
  | .bool, _ => rfl
  | .var, _ => rfl
  | .paren (a := a) hexpr, h => by
    rw [Term.span_withSpan]
    exact InOrder.join_extent (u := [⟨.leftParen, a⟩]) h (by simp)

end

theorem Statements.ne_nil {i j : Nat} {ts : List Token} {t : Term} (h : Statements i ts t j) :
    ts ≠ [] := by
  cases h with
  | last hexpr => exact hexpr.ne_nil
  | seq | const => simp

theorem Statements.span_eq {i j : Nat} {ts : List Token} {t : Term} (h : Statements i ts t j)
    (hts : InOrder ts) : t.span = extent ts := by
  induction h with
  | last hexpr => exact hexpr.span_eq hts
  | seq hexpr hrest ih =>
    rw [extent_append_cons hexpr.ne_nil hrest.ne_nil, Term.span, Term.node, ih hts.right]
    rfl
  | const hexpr hrest ih =>
    rw [extent_append_cons (by simp) hrest.ne_nil, Term.span, Term.node, ih hts.right]
    rfl

/-! ## The terms below a term -/

/-- Some of the tokens, one after the other, write the term. -/
def Part (ts : List Token) (t : Term) : Prop := ∃ us i j, us <:+: ts ∧ Statements i us t j

/-- Some of the tokens, one after the other, reach over the span. -/
def Spanned (ts : List Token) (s : Span) : Prop := ∃ us, us <:+: ts ∧ us ≠ [] ∧ s = extent us

theorem Part.mono {us ts : List Token} {t : Term} (h : Part us t) (hus : us <:+: ts) :
    Part ts t := by
  obtain ⟨vs, i, j, hvs, hwritten⟩ := h
  exact ⟨vs, i, j, hvs.trans hus, hwritten⟩

theorem Spanned.mono {us ts : List Token} {s : Span} (h : Spanned us s) (hus : us <:+: ts) :
    Spanned ts s := by
  obtain ⟨vs, hvs, hne, hs⟩ := h
  exact ⟨vs, hvs.trans hus, hne, hs⟩

theorem infix_append_cons (u v : List Token) (t : Token) : v <:+: u ++ t :: v :=
  ⟨u ++ [t], [], by simp⟩

theorem infix_append (u v : List Token) : u <:+: u ++ v := ⟨[], v, rfl⟩

/-- The span of a parameter goes from its name to the end of its annotation. -/
theorem spanned_param {x : String} {a b : Span} {ts : List Token} {T : TypeExpr}
    (h : Annotation ts T) :
    Spanned (⟨.ident x, a⟩ :: ⟨.colon, b⟩ :: ts) ⟨a.start, T.span.stop⟩ := by
  refine ⟨_, List.infix_rfl, by simp, ?_⟩
  rw [h.span_eq]
  exact (extent_append_cons (u := [⟨.ident x, a⟩]) (by simp) h.ne_nil).symm

theorem Params.spanned {ts : List Token} {ps : List ParamDecl} :
    Params ts ps → ∀ p ∈ ps, Spanned ts p.span
  | .nil => by simp
  | .last hann => by simpa using spanned_param hann
  | .cons hann hps => by
    rintro p (_ | ⟨_, hp⟩)
    · exact (spanned_param hann).mono (infix_append _ _)
    · exact (hps.spanned p hp).mono (infix_append_cons _ _ _)

theorem Args.part {i j : Nat} {ts : List Token} {as : List Term} :
    Args i ts as j → ∀ t ∈ as, Part ts t
  | .nil => by simp
  | .last hexpr => by simpa using ⟨_, _, _, List.infix_rfl, .last hexpr⟩
  | .cons hexpr hargs => by
    rintro t (_ | ⟨_, ht⟩)
    · exact ⟨_, _, _, infix_append _ _, .last hexpr⟩
    · exact (hargs.part t ht).mono (infix_append_cons _ _ _)

end Written

/-- The parameters of a term, if it is a function. -/
def Term.params : Term → List ParamDecl
  | func _ ps _ => ps
  | _ => []

namespace Written

/-- All that is right below a term is written by some of the tokens. -/
structure Inside (ts : List Token) (t : Term) : Prop where
  child : ∀ c ∈ t.children, Part ts c
  param : ∀ p ∈ t.params, Spanned ts p.span

theorem Inside.mono {us ts : List Token} {t : Term} (h : Inside us t) (hus : us <:+: ts) :
    Inside ts t where
  child c hc := (h.child c hc).mono hus
  param p hp := (h.param p hp).mono hus

theorem Inside.withSpan {ts : List Token} {t : Term} (h : Inside ts t) (s : Span) :
    Inside ts (t.withSpan s) := by
  cases t <;> exact ⟨h.child, h.param⟩

mutual

theorem Expr.inside {i j : Nat} {ts : List Token} {t : Term} : Expr i ts t j → Inside ts t
  | .sum hsum => hsum.inside
  | .cond hsum hyes hno => by
    refine ⟨?_, by simp [Term.params]⟩
    simp only [Term.children, List.mem_cons, List.not_mem_nil, or_false]
    rintro c (rfl | rfl | rfl)
    · exact ⟨_, _, _, (infix_append _ _).trans (infix_append _ _), .last (.sum hsum)⟩
    · exact ⟨_, _, _, (infix_append_cons _ _ _).trans (infix_append _ _), .last hyes⟩
    · exact ⟨_, _, _, infix_append_cons _ _ _, .last hno⟩

theorem Sum.inside {o : Bool} {i j : Nat} {ts : List Token} {t : Term} :
    Sum o i ts t j → Inside ts t
  | .operand hop => hop.inside
  | .add hsum hop => by
    refine ⟨?_, by simp [Term.params]⟩
    simp only [Term.children, List.mem_cons, List.not_mem_nil, or_false]
    rintro c (rfl | rfl)
    · exact ⟨_, _, _, infix_append _ _, .last (.sum hsum)⟩
    · exact ⟨_, _, _, infix_append_cons _ _ _, .last (.sum (.operand hop))⟩

theorem Operand.inside {o : Bool} {i j : Nat} {ts : List Token} {t : Term} :
    Operand o i ts t j → Inside ts t
  | .closed hpost => hpost.inside
  | .arrow hps hbody => by
    refine ⟨?_, fun p hp => (hps.spanned p hp).mono
      ((infix_append_cons [] _ _).trans (infix_append _ _))⟩
    simp only [Term.children, List.mem_singleton, forall_eq]
    exact ⟨_, _, _, (infix_append_cons [] _ _).trans (infix_append_cons _ _ _), .last hbody⟩

theorem Postfix.inside {i j : Nat} {ts : List Token} {t : Term} : Postfix i ts t j → Inside ts t
  | .atom hatom => hatom.inside
  | .call hpost hargs => by
    refine ⟨?_, by simp [Term.params]⟩
    simp only [Term.children, List.mem_cons]
    rintro c (rfl | hc)
    · exact ⟨_, _, _, (infix_append _ _).trans (infix_append _ _),
        .last (.sum (.operand (.closed hpost)))⟩
    · exact (hargs.part c hc).mono ((infix_append_cons _ _ _).trans (infix_append _ _))

theorem Atom.inside {i j : Nat} {ts : List Token} {t : Term} : Atom i ts t j → Inside ts t
  | .number | .bool | .var => ⟨by simp [Term.children], by simp [Term.params]⟩
  | .paren hexpr => (hexpr.inside.withSpan _).mono
      ((infix_append_cons [] _ _).trans (infix_append _ _))

end

theorem Statements.inside {i j : Nat} {ts : List Token} {t : Term} (h : Statements i ts t j) :
    Inside ts t := by
  cases h with
  | last hexpr => exact hexpr.inside
  | seq hexpr hrest =>
    refine ⟨?_, by simp [Term.params]⟩
    simp only [Term.children, List.mem_cons, List.not_mem_nil, or_false]
    rintro c (rfl | rfl)
    · exact ⟨_, _, _, infix_append _ _, .last hexpr⟩
    · exact ⟨_, _, _, infix_append_cons _ _ _, hrest⟩
  | const hexpr hrest =>
    refine ⟨?_, by simp [Term.params]⟩
    simp only [Term.children, List.mem_cons, List.not_mem_nil, or_false]
    rintro c (rfl | rfl)
    · exact ⟨_, _, _, (infix_append_cons [_, _] _ _).trans (infix_append _ _), .last hexpr⟩
    · exact ⟨_, _, _, infix_append_cons _ _ _, hrest⟩

end Written

/-- `n.Within t`: the term `n` is `t` or below it. -/
inductive Term.Within (n : Term) : Term → Prop where
  | refl : Within n n
  | child {c t} : c ∈ t.children → Within n c → Within n t

namespace Written

theorem Part.within {ts : List Token} {n t : Term} (h : Part ts t) (hn : n.Within t) :
    Part ts n := by
  induction hn with
  | refl => exact h
  | child hc _ ih =>
    obtain ⟨us, i, j, hus, hwritten⟩ := h
    exact ih ((hwritten.inside.child _ hc).mono hus)

open Parse

theorem Trailing.shift {ts : List Token} (h : Trailing ts) (d : Nat) :
    Trailing (ts.map (Token.shift d)) := by
  obtain rfl | ⟨a, rfl⟩ := h
  · exact .inl rfl
  · exact .inr ⟨a.shift d, rfl⟩

/-- A term is read from its tokens alone, wherever they stand, but for its place and its numbers. -/
theorem Statements.exists_program {i j d : Nat} {ts : List Token} {t : Term}
    (h : Statements i (ts.map (Token.shift d)) t j) (e : Span) :
    ∃ u, (program ⟨ts, e, 0⟩).result = .ok u ∧ t = u.shift d i := by
  have hkinds : ts.map Token.kind = (ts.map (Token.shift d) ++ []).map Token.kind := by
    simp [Token.shift, Function.comp_def]
  -- the kinds of the tokens are in the grammar, so that they write some term
  obtain ⟨us, vs, u, k, rfl, hvs, hwritten, -⟩ := (h.shape (.inl rfl)).written hkinds 0
  refine ⟨u, congrArg Reading.result (hwritten.reads_program hvs e), ?_⟩
  -- and what they write further on is the one that is read there
  have hread := (hwritten.shift d i).reads_program (hvs.shift d) e
  rw [Nat.zero_add, ← List.map_append, ← List.append_nil (List.map _ _),
    h.reads_program (.inl rfl) e] at hread
  cases hread
  rfl

end Written

end ArrowLang
