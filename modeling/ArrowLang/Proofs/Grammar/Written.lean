import ArrowLang.Proofs.Grammar

/-!
# How a term is written

The grammar again, over tokens in place of their kinds, and with all that the tokens tell of a term:
the span of each node, and the numbers of the nodes, which go from `i` up to `j` in `Expr i ts t j`.
Forgetting spans and numbers leads back to the grammar (`Expr.shape`), and every derivation there is
that of some term that is written with given tokens (`Grammar.Expr.written`).
-/

namespace ArrowLang.Written

open Token

/-- Where the first token starts. -/
def start (ts : List Token) : Nat := (ts.head?.map (·.span.start)).getD 0

theorem start_append {u v : List Token} (hu : u ≠ []) : start (u ++ v) = start u := by
  cases u with
  | nil => contradiction
  | cons => rfl

/-! ## Types -/

mutual

inductive Annotation : List Token → TypeExpr → Prop where
  | boolean {a} : Annotation [⟨.ident "boolean", a⟩] (.boolean a)
  | number {a} : Annotation [⟨.ident "number", a⟩] (.number a)
  | function {a b c u v ps r} : Params u ps → Annotation v r →
      Annotation (⟨.leftParen, a⟩ :: u ++ ⟨.rightParen, b⟩ :: ⟨.fatArrow, c⟩ :: v)
        (.function ⟨a.start, r.span.stop⟩ ps r)

inductive Params : List Token → List ParamDecl → Prop where
  | nil : Params [] []
  | last {x a b u T} : Annotation u T →
      Params (⟨.ident x, a⟩ :: ⟨.colon, b⟩ :: u) [⟨x, T, ⟨a.start, T.span.stop⟩⟩]
  | cons {x a b c u v T ps} : Annotation u T → Params v ps →
      Params (⟨.ident x, a⟩ :: ⟨.colon, b⟩ :: u ++ ⟨.comma, c⟩ :: v)
        (⟨x, T, ⟨a.start, T.span.stop⟩⟩ :: ps)

end

/-! ## Expressions -/

mutual

inductive Expr : Nat → List Token → Term → Nat → Prop where
  | sum {i j o ts t} : Sum o i ts t j → Expr i ts t j
  | cond {i j k l a b u v w c y n} : Sum false i u c j → Expr j v y k → Expr k w n l →
      Expr i (u ++ ⟨.question, a⟩ :: v ++ ⟨.colon, b⟩ :: w)
        (.cond ⟨l, ⟨start u, n.span.stop⟩⟩ c y n) (l + 1)

inductive Sum : Bool → Nat → List Token → Term → Nat → Prop where
  | operand {o i j ts t} : Operand o i ts t j → Sum o i ts t j
  | add {o i j k a u v s t} : Sum false i u s j → Operand o j v t k →
      Sum o i (u ++ ⟨.plus, a⟩ :: v) (.add ⟨k, ⟨start u, t.span.stop⟩⟩ s t) (k + 1)

inductive Operand : Bool → Nat → List Token → Term → Nat → Prop where
  | closed {i j ts t} : Postfix i ts t j → Operand false i ts t j
  | arrow {i j a b c u v ps t} : Params u ps → Expr i v t j →
      Operand true i (⟨.leftParen, a⟩ :: u ++ ⟨.rightParen, b⟩ :: ⟨.fatArrow, c⟩ :: v)
        (.func ⟨j, ⟨a.start, t.span.stop⟩⟩ ps t) (j + 1)

inductive Postfix : Nat → List Token → Term → Nat → Prop where
  | atom {i j ts t} : Atom i ts t j → Postfix i ts t j
  | call {i j k a b u v f as} : Postfix i u f j → Args j v as k →
      Postfix i (u ++ ⟨.leftParen, a⟩ :: v ++ [⟨.rightParen, b⟩])
        (.call ⟨k, f.span.join b⟩ f as) (k + 1)

inductive Atom : Nat → List Token → Term → Nat → Prop where
  | number {i a v} : Atom i [⟨.number v, a⟩] (.number ⟨i, a⟩ v) (i + 1)
  | bool {i a v} : Atom i [⟨.bool v, a⟩] (.bool ⟨i, a⟩ v) (i + 1)
  | var {i a x} : Atom i [⟨.ident x, a⟩] (.var ⟨i, a⟩ x) (i + 1)
  | paren {i j a b ts t} : Expr i ts t j →
      Atom i (⟨.leftParen, a⟩ :: ts ++ [⟨.rightParen, b⟩]) (t.withSpan (a.join b)) j

inductive Args : Nat → List Token → List Term → Nat → Prop where
  | nil {i} : Args i [] [] i
  | last {i j ts t} : Expr i ts t j → Args i ts [t] j
  | cons {i j k a u v t ts} : Expr i u t j → Args j v ts k →
      Args i (u ++ ⟨.comma, a⟩ :: v) (t :: ts) k

end

/-! ## Statements -/

/-- Statements without a semicolon after the last one. -/
inductive Statements : Nat → List Token → Term → Nat → Prop where
  | last {i j ts t} : Expr i ts t j → Statements i ts t j
  | seq {i j k a u v b r} : Expr i u b j → Statements j v r k →
      Statements i (u ++ ⟨.semicolon, a⟩ :: v) (.seq ⟨k, ⟨start u, r.span.stop⟩⟩ b r) (k + 1)
  | const {i j k a b c d u v x t r} : Expr i u t j → Statements j v r k →
      Statements i
        (⟨.const, a⟩ :: ⟨.ident x, b⟩ :: ⟨.equals, c⟩ :: u ++ ⟨.semicolon, d⟩ :: v)
        (.const ⟨k, ⟨a.start, r.span.stop⟩⟩ x t r) (k + 1)

/-- What may stand after statements and writes nothing: a semicolon, or no token. -/
def Trailing (ts : List Token) : Prop := ts = [] ∨ ∃ a, ts = [⟨.semicolon, a⟩]

/-! ## Shapes -/

end ArrowLang.Written

namespace ArrowLang

@[simp] theorem Term.shape_withSpan (span : Span) (t : Term) :
    (t.withSpan span).shape = t.shape := by
  cases t <;> simp [Term.withSpan, Term.withNode, Term.shape]

namespace Written

mutual

theorem Annotation.shape {ts : List Token} {T : TypeExpr} :
    Annotation ts T → Grammar.Annotation (ts.map (·.kind)) T.toTy
  | .boolean => .boolean
  | .number => .number
  | .function hps h => by simpa [TypeExpr.toTy] using Grammar.Annotation.function hps.shape h.shape

theorem Params.shape {ts : List Token} {ps : List ParamDecl} :
    Params ts ps → Grammar.Params (ts.map (·.kind)) (ParamDecl.toParams ps)
  | .nil => .nil
  | .last h => .last h.shape
  | .cons h hps => by simpa [ParamDecl.toParams] using Grammar.Params.cons h.shape hps.shape

end

mutual

theorem Expr.shape {i j : Nat} {ts : List Token} {t : Term} :
    Expr i ts t j → Grammar.Expr (ts.map (·.kind)) t.shape
  | .sum h => .sum h.shape
  | .cond hc hy hn => by simpa [Term.shape] using Grammar.Expr.cond hc.shape hy.shape hn.shape

theorem Sum.shape {o : Bool} {i j : Nat} {ts : List Token} {t : Term} :
    Sum o i ts t j → Grammar.Sum o (ts.map (·.kind)) t.shape
  | .operand h => .operand h.shape
  | .add hs h => by simpa [Term.shape] using Grammar.Sum.add hs.shape h.shape

theorem Operand.shape {o : Bool} {i j : Nat} {ts : List Token} {t : Term} :
    Operand o i ts t j → Grammar.Operand o (ts.map (·.kind)) t.shape
  | .closed h => .closed h.shape
  | .arrow hps h => by simpa [Term.shape] using Grammar.Operand.arrow hps.shape h.shape

theorem Postfix.shape {i j : Nat} {ts : List Token} {t : Term} :
    Postfix i ts t j → Grammar.Postfix (ts.map (·.kind)) t.shape
  | .atom h => .atom h.shape
  | .call h has => by simpa [Term.shape] using Grammar.Postfix.call h.shape has.shape

theorem Atom.shape {i j : Nat} {ts : List Token} {t : Term} :
    Atom i ts t j → Grammar.Atom (ts.map (·.kind)) t.shape
  | .number => .number
  | .bool => .bool
  | .var => .var
  | .paren h => by simpa using Grammar.Atom.paren h.shape

theorem Args.shape {i j : Nat} {ts : List Token} {as : List Term} :
    Args i ts as j → Grammar.Args (ts.map (·.kind)) (Term.shapes as)
  | .nil => .nil
  | .last h => .last h.shape
  | .cons h has => by simpa [Term.shapes] using Grammar.Args.cons h.shape has.shape

end

theorem Statements.shape {i j : Nat} {ts us : List Token} {t : Term} (h : Statements i ts t j)
    (hus : Trailing us) : Grammar.Statements ((ts ++ us).map (·.kind)) t.shape := by
  induction h with
  | last h =>
    obtain rfl | ⟨a, rfl⟩ := hus
    · simpa using Grammar.Statements.last h.shape
    · simpa using Grammar.Statements.trailing h.shape
  | seq h _ ih => simpa [Term.shape] using Grammar.Statements.seq h.shape ih
  | const h _ ih => simpa [Term.shape] using Grammar.Statements.const h.shape ih

end Written

/-- An expression has a first token. -/
theorem Written.ne_nil_of_opens {ts : List Token} (h : Grammar.Opens (ts.map (·.kind))) :
    ts ≠ [] := by
  rintro rfl
  cases h

/-! ## Terms of a shape -/

namespace Grammar

open Token

theorem exists_of_kinds_eq_cons {ts : List Token} {k : Kind} {w : List Kind}
    (h : ts.map (·.kind) = k :: w) : ∃ a us, ts = ⟨k, a⟩ :: us ∧ us.map (·.kind) = w := by
  obtain ⟨t, us, rfl, rfl, rfl⟩ := List.map_eq_cons_iff.1 h
  exact ⟨t.span, us, rfl, rfl⟩

theorem exists_of_kinds_eq_append_cons {ts : List Token} {k : Kind} {v w : List Kind}
    (h : ts.map (·.kind) = v ++ k :: w) :
    ∃ us a vs, ts = us ++ ⟨k, a⟩ :: vs ∧ us.map (·.kind) = v ∧ vs.map (·.kind) = w := by
  obtain ⟨us, vs, rfl, rfl, hvs⟩ := List.map_eq_append_iff.1 h
  obtain ⟨a, vs, rfl, rfl⟩ := exists_of_kinds_eq_cons hvs
  exact ⟨us, a, vs, rfl, rfl, rfl⟩

mutual

theorem Annotation.written {w : List Kind} {T : Ty} : Annotation w T →
    ∀ {ts : List Token}, ts.map (·.kind) = w → ∃ U, Written.Annotation ts U ∧ U.toTy = T
  | .boolean, ts, h => by
    obtain ⟨a, us, rfl, hus⟩ := exists_of_kinds_eq_cons h
    obtain rfl := List.map_eq_nil_iff.1 hus
    exact ⟨_, .boolean, rfl⟩
  | .number, ts, h => by
    obtain ⟨a, us, rfl, hus⟩ := exists_of_kinds_eq_cons h
    obtain rfl := List.map_eq_nil_iff.1 hus
    exact ⟨_, .number, rfl⟩
  | .function hps hann, ts, h => by
    obtain ⟨a, ts, rfl, h₁⟩ := exists_of_kinds_eq_cons h
    obtain ⟨us, b, ts, rfl, hus, h₂⟩ := exists_of_kinds_eq_append_cons h₁
    obtain ⟨c, vs, rfl, hvs⟩ := exists_of_kinds_eq_cons h₂
    obtain ⟨ps, hps', rfl⟩ := hps.written hus
    obtain ⟨U, hann', rfl⟩ := hann.written hvs
    exact ⟨_, .function hps' hann', rfl⟩

theorem Params.written {w : List Kind} {ps : List Param} : Params w ps →
    ∀ {ts : List Token}, ts.map (·.kind) = w →
      ∃ qs, Written.Params ts qs ∧ ParamDecl.toParams qs = ps
  | .nil, ts, h => by
    obtain rfl := List.map_eq_nil_iff.1 h
    exact ⟨[], .nil, rfl⟩
  | .last hann, ts, h => by
    obtain ⟨a, ts, rfl, h₁⟩ := exists_of_kinds_eq_cons h
    obtain ⟨b, us, rfl, hus⟩ := exists_of_kinds_eq_cons h₁
    obtain ⟨U, hann', rfl⟩ := hann.written hus
    exact ⟨_, .last hann', rfl⟩
  | .cons hann hps, ts, h => by
    obtain ⟨a, ts, rfl, h₁⟩ := exists_of_kinds_eq_cons h
    obtain ⟨b, ts, rfl, h₂⟩ := exists_of_kinds_eq_cons h₁
    obtain ⟨us, c, vs, rfl, hus, hvs⟩ := exists_of_kinds_eq_append_cons h₂
    obtain ⟨U, hann', rfl⟩ := hann.written hus
    obtain ⟨qs, hps', rfl⟩ := hps.written hvs
    exact ⟨_, .cons hann' hps', rfl⟩

end

mutual

theorem Expr.written {w : List Kind} {t : Shape} : Expr w t →
    ∀ {ts : List Token}, ts.map (·.kind) = w → ∀ i, ∃ u j, Written.Expr i ts u j ∧ u.shape = t
  | .sum hsum, ts, h, i => by
    obtain ⟨u, j, hsum', rfl⟩ := hsum.written h i
    exact ⟨u, j, .sum hsum', rfl⟩
  | .cond hsum hyes hno, ts, h, i => by
    simp only [List.append_assoc, List.cons_append] at h
    obtain ⟨us, a, ts, rfl, hus, h₁⟩ := exists_of_kinds_eq_append_cons h
    obtain ⟨vs, b, ws, rfl, hvs, hws⟩ := exists_of_kinds_eq_append_cons h₁
    obtain ⟨c, j, hsum', rfl⟩ := hsum.written hus i
    obtain ⟨y, k, hyes', rfl⟩ := hyes.written hvs j
    obtain ⟨n, l, hno', rfl⟩ := hno.written hws k
    exact ⟨_, _, by simpa using Written.Expr.cond hsum' hyes' hno', rfl⟩

theorem Sum.written {o : Bool} {w : List Kind} {t : Shape} : Sum o w t →
    ∀ {ts : List Token}, ts.map (·.kind) = w → ∀ i, ∃ u j, Written.Sum o i ts u j ∧ u.shape = t
  | .operand hop, ts, h, i => by
    obtain ⟨u, j, hop', rfl⟩ := hop.written h i
    exact ⟨u, j, .operand hop', rfl⟩
  | .add hsum hop, ts, h, i => by
    obtain ⟨us, a, vs, rfl, hus, hvs⟩ := exists_of_kinds_eq_append_cons h
    obtain ⟨s, j, hsum', rfl⟩ := hsum.written hus i
    obtain ⟨t, k, hop', rfl⟩ := hop.written hvs j
    exact ⟨_, _, .add hsum' hop', rfl⟩

theorem Operand.written {o : Bool} {w : List Kind} {t : Shape} : Operand o w t →
    ∀ {ts : List Token}, ts.map (·.kind) = w →
      ∀ i, ∃ u j, Written.Operand o i ts u j ∧ u.shape = t
  | .closed hpost, ts, h, i => by
    obtain ⟨u, j, hpost', rfl⟩ := hpost.written h i
    exact ⟨u, j, .closed hpost', rfl⟩
  | .arrow hps hbody, ts, h, i => by
    obtain ⟨a, ts, rfl, h₁⟩ := exists_of_kinds_eq_cons h
    obtain ⟨us, b, ts, rfl, hus, h₂⟩ := exists_of_kinds_eq_append_cons h₁
    obtain ⟨c, vs, rfl, hvs⟩ := exists_of_kinds_eq_cons h₂
    obtain ⟨ps, hps', rfl⟩ := hps.written hus
    obtain ⟨b, j, hbody', rfl⟩ := hbody.written hvs i
    exact ⟨_, _, .arrow hps' hbody', rfl⟩

theorem Postfix.written {w : List Kind} {t : Shape} : Postfix w t →
    ∀ {ts : List Token}, ts.map (·.kind) = w →
      ∀ i, ∃ u j, Written.Postfix i ts u j ∧ u.shape = t
  | .atom hatom, ts, h, i => by
    obtain ⟨u, j, hatom', rfl⟩ := hatom.written h i
    exact ⟨u, j, .atom hatom', rfl⟩
  | .call hpost hargs, ts, h, i => by
    simp only [List.append_assoc, List.cons_append] at h
    obtain ⟨us, a, ts, rfl, hus, h₁⟩ := exists_of_kinds_eq_append_cons h
    obtain ⟨vs, b, ws, rfl, hvs, hws⟩ := exists_of_kinds_eq_append_cons h₁
    obtain rfl := List.map_eq_nil_iff.1 hws
    obtain ⟨f, j, hpost', rfl⟩ := hpost.written hus i
    obtain ⟨as, k, hargs', rfl⟩ := hargs.written hvs j
    exact ⟨_, _, by simpa using Written.Postfix.call hpost' hargs', rfl⟩

theorem Atom.written {w : List Kind} {t : Shape} : Atom w t →
    ∀ {ts : List Token}, ts.map (·.kind) = w → ∀ i, ∃ u j, Written.Atom i ts u j ∧ u.shape = t
  | .number, ts, h, i => by
    obtain ⟨a, us, rfl, hus⟩ := exists_of_kinds_eq_cons h
    obtain rfl := List.map_eq_nil_iff.1 hus
    exact ⟨_, _, .number, rfl⟩
  | .bool, ts, h, i => by
    obtain ⟨a, us, rfl, hus⟩ := exists_of_kinds_eq_cons h
    obtain rfl := List.map_eq_nil_iff.1 hus
    exact ⟨_, _, .bool, rfl⟩
  | .var, ts, h, i => by
    obtain ⟨a, us, rfl, hus⟩ := exists_of_kinds_eq_cons h
    obtain rfl := List.map_eq_nil_iff.1 hus
    exact ⟨_, _, .var, rfl⟩
  | .paren hexpr, ts, h, i => by
    obtain ⟨a, ts, rfl, h₁⟩ := exists_of_kinds_eq_cons h
    obtain ⟨us, b, ws, rfl, hus, hws⟩ := exists_of_kinds_eq_append_cons h₁
    obtain rfl := List.map_eq_nil_iff.1 hws
    obtain ⟨u, j, hexpr', rfl⟩ := hexpr.written hus i
    exact ⟨_, _, .paren hexpr', Term.shape_withSpan _ _⟩

theorem Args.written {w : List Kind} {shapes : List Shape} : Args w shapes →
    ∀ {ts : List Token}, ts.map (·.kind) = w →
      ∀ i, ∃ as j, Written.Args i ts as j ∧ Term.shapes as = shapes
  | .nil, ts, h, i => by
    obtain rfl := List.map_eq_nil_iff.1 h
    exact ⟨[], i, .nil, rfl⟩
  | .last hexpr, ts, h, i => by
    obtain ⟨u, j, hexpr', rfl⟩ := hexpr.written h i
    exact ⟨_, _, .last hexpr', rfl⟩
  | .cons hexpr hargs, ts, h, i => by
    obtain ⟨us, a, vs, rfl, hus, hvs⟩ := exists_of_kinds_eq_append_cons h
    obtain ⟨u, j, hexpr', rfl⟩ := hexpr.written hus i
    obtain ⟨as, k, hargs', rfl⟩ := hargs.written hvs j
    exact ⟨_, _, .cons hexpr' hargs', rfl⟩

end

theorem Statements.written {w : List Kind} {t : Shape} (h : Statements w t) :
    ∀ {ts : List Token}, ts.map (·.kind) = w → ∀ i, ∃ us vs u j, ts = us ++ vs ∧
      Written.Trailing vs ∧ Written.Statements i us u j ∧ u.shape = t := by
  induction h with
  | last hexpr =>
    intro ts h i
    obtain ⟨u, j, hexpr', rfl⟩ := hexpr.written h i
    exact ⟨ts, [], u, j, by simp, .inl rfl, .last hexpr', rfl⟩
  | trailing hexpr =>
    intro ts h i
    obtain ⟨us, a, ws, rfl, hus, hws⟩ := exists_of_kinds_eq_append_cons h
    obtain rfl := List.map_eq_nil_iff.1 hws
    obtain ⟨u, j, hexpr', rfl⟩ := hexpr.written hus i
    exact ⟨us, _, u, j, rfl, .inr ⟨a, rfl⟩, .last hexpr', rfl⟩
  | seq hexpr _ ih =>
    intro ts h i
    obtain ⟨us, a, ts, rfl, hus, h₁⟩ := exists_of_kinds_eq_append_cons h
    obtain ⟨b, j, hexpr', rfl⟩ := hexpr.written hus i
    obtain ⟨vs, ws, r, k, rfl, hws, hrest, rfl⟩ := ih h₁ j
    exact ⟨us ++ ⟨.semicolon, a⟩ :: vs, ws, _, _, by simp, hws, .seq hexpr' hrest, rfl⟩
  | const hexpr _ ih =>
    intro ts h i
    obtain ⟨a, ts, rfl, h₁⟩ := exists_of_kinds_eq_cons h
    obtain ⟨b, ts, rfl, h₂⟩ := exists_of_kinds_eq_cons h₁
    obtain ⟨c, ts, rfl, h₃⟩ := exists_of_kinds_eq_cons h₂
    obtain ⟨us, d, ts, rfl, hus, h₄⟩ := exists_of_kinds_eq_append_cons h₃
    obtain ⟨t, j, hexpr', rfl⟩ := hexpr.written hus i
    obtain ⟨vs, ws, r, k, rfl, hws, hrest, rfl⟩ := ih h₄ j
    exact ⟨⟨.const, a⟩ :: ⟨.ident _, b⟩ :: ⟨.equals, c⟩ :: us ++ ⟨.semicolon, d⟩ :: vs, ws, _, _,
      by simp, hws, .const hexpr' hrest, rfl⟩

end Grammar

end ArrowLang
