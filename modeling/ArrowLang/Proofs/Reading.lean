import ArrowLang.Term.Parser

/-!
# Reading, step by step

A `Reading` is an outcome without the place it started from: a result and the cursor where reading
stopped. The parser is given again as equations between readings, one for each of its functions.
They hold for successes and failures alike, and nothing after this module opens the parser itself.
-/

namespace ArrowLang

structure Reading (α : Type) where
  result : Except ParseError α
  rest : Cursor

namespace Reading

variable {α β γ : Type}

/-- Reads on after a success. -/
def bind (x : Reading α) (f : α → Cursor → Reading β) : Reading β :=
  match x with
  | ⟨.error e, r⟩ => ⟨.error e, r⟩
  | ⟨.ok a, r⟩ => f a r

@[simp] theorem bind_ok (a : α) (r : Cursor) (f : α → Cursor → Reading β) :
    (⟨.ok a, r⟩ : Reading α).bind f = f a r := rfl

@[simp] theorem bind_error (e : ParseError) (r : Cursor) (f : α → Cursor → Reading β) :
    (⟨.error e, r⟩ : Reading α).bind f = ⟨.error e, r⟩ := rfl

theorem bind_eq_ok_iff {x : Reading α} {f : α → Cursor → Reading β} {b : β} {r : Cursor} :
    x.bind f = ⟨.ok b, r⟩ ↔ ∃ a s, x = ⟨.ok a, s⟩ ∧ f a s = ⟨.ok b, r⟩ := by
  constructor
  · intro h
    obtain ⟨res, q⟩ := x
    cases res with
    | error e => simp at h
    | ok a => exact ⟨a, q, rfl, h⟩
  · rintro ⟨a, q, rfl, h⟩
    exact h

theorem bind_eq_error_iff {x : Reading α} {f : α → Cursor → Reading β} {e : ParseError}
    {r : Cursor} : x.bind f = ⟨.error e, r⟩ ↔
      x = ⟨.error e, r⟩ ∨ ∃ a s, x = ⟨.ok a, s⟩ ∧ f a s = ⟨.error e, r⟩ := by
  obtain ⟨res, q⟩ := x
  cases res with
  | error e => simp
  | ok a =>
    constructor
    · exact fun h => .inr ⟨a, q, rfl, h⟩
    · rintro (⟨⟨⟩⟩ | ⟨_, _, ⟨⟩, h⟩)
      exact h

theorem bind_assoc (x : Reading α) (f : α → Cursor → Reading β) (g : β → Cursor → Reading γ) :
    (x.bind f).bind g = x.bind fun a r => (f a r).bind g := by
  obtain ⟨res, q⟩ := x
  cases res <;> rfl

end Reading

namespace Outcome

variable {s : Cursor} {α β : Type}

/-- What was read, seen from anywhere. -/
def reading (x : Outcome s α) : Reading α := ⟨x.result, x.rest⟩

theorem left_le_of_reading {x : Outcome s α} {res : Except ParseError α} {r : Cursor}
    (h : x.reading = ⟨res, r⟩) : r.left ≤ s.left := by
  cases h
  exact x.left_le

@[simp] theorem reading_pure (a : α) (s : Cursor) : (pure a s).reading = ⟨.ok a, s⟩ := rfl

@[simp] theorem reading_since {r : Cursor} (h : r.left ≤ s.left) (x : Outcome r α) :
    (since h x).reading = x.reading := rfl

/-- Reading in steps, where the next step `f` reads `g`. -/
theorem reading_bind {x : Outcome s α}
    {f : (a : α) → (r : Cursor) → r.left ≤ s.left → Outcome r β} {g : α → Cursor → Reading β}
    (h : ∀ a r hr, (f a r hr).reading = g a r) : (x.bind f).reading = x.reading.bind g := by
  obtain ⟨res, r, hr⟩ := x
  cases res with
  | error e => rfl
  | ok a => exact h a r hr

end Outcome

namespace Cursor

/-- The kinds of the tokens ahead. -/
def kinds (s : Cursor) : List Token.Kind := s.ahead.map (·.kind)

theorem ahead_of_next? {s : Cursor} {t : Token} {r : { r : Cursor // r.left < s.left }}
    (h : s.next? = some (t, r)) : ∃ ts, s.ahead = t :: ts ∧ r.1 = { s with ahead := ts } := by
  cases hs : s.ahead with
  | nil => simp [next?_of_nil hs] at h
  | cons u ts =>
    simp only [next?_of_cons hs, Option.some.injEq, Prod.mk.injEq] at h
    obtain ⟨rfl, rfl⟩ := h
    exact ⟨ts, rfl, rfl⟩

theorem kind_of_ahead {s : Cursor} {k : Token.Kind} {span : Span} {ts : List Token}
    (h : s.ahead = ⟨k, span⟩ :: ts) : s.kind = k := by
  simp [kind, h]

theorem span_of_ahead {s : Cursor} {k : Token.Kind} {a : Span} {ts : List Token}
    (h : s.ahead = ⟨k, a⟩ :: ts) : s.span = a := by
  simp [span, h]

theorem exists_ahead_of_kind {s : Cursor} {k : Token.Kind} (hk : k ≠ .eof) (h : s.kind = k) :
    ∃ ts, s.ahead = ⟨k, s.span⟩ :: ts := by
  unfold kind at h
  cases hs : s.ahead with
  | nil => exact absurd (by simpa [hs] using h.symm) hk
  | cons t ts =>
    obtain rfl : t.kind = k := by simpa [hs] using h
    exact ⟨ts, by simp [span, hs]⟩

theorem kind_ne_of_ahead_ne {s : Cursor} {k : Token.Kind} (hk : k ≠ .eof)
    (h : ∀ span ts, s.ahead = ⟨k, span⟩ :: ts → False) : s.kind ≠ k := by
  intro he
  obtain ⟨ts, hs⟩ := exists_ahead_of_kind hk he
  exact h s.span ts hs

/-- The same place after one more node is complete. -/
def tick (s : Cursor) : Cursor := { s with nextId := s.nextId + 1 }

@[simp] theorem left_tick (s : Cursor) : s.tick.left = s.left := rfl

/-- `s.Passes u r`: the tokens from `s` to `r` are `u`. -/
structure Passes (s : Cursor) (u : List Token) (r : Cursor) : Prop where
  ahead : s.ahead = u ++ r.ahead
  eof : r.eof = s.eof

theorem Passes.trans {s q r : Cursor} {u v : List Token} (h : s.Passes u q) (g : q.Passes v r) :
    s.Passes (u ++ v) r :=
  ⟨by rw [h.ahead, g.ahead, List.append_assoc], g.eof.trans h.eof⟩

theorem Passes.left_lt {s r : Cursor} {t : Token} {u : List Token} (h : s.Passes (t :: u) r) :
    r.left < s.left := by
  simp only [left, h.ahead, List.length_append, List.length_cons]
  omega

theorem passes_nil (s : Cursor) : s.Passes [] s := ⟨rfl, rfl⟩

theorem passes_of_ahead {s : Cursor} {t : Token} {ts : List Token} (h : s.ahead = t :: ts) :
    s.Passes [t] { s with ahead := ts } :=
  ⟨h, rfl⟩

theorem Passes.tick {s r : Cursor} {u : List Token} (h : s.Passes u r) : s.Passes u r.tick :=
  ⟨h.ahead, h.eof⟩

theorem reading_expect (s : Cursor) (k : Token.Kind) :
    (s.expect k).reading = match s.ahead with
      | t :: ts =>
        if t.kind = k then ⟨.ok t.span, { s with ahead := ts }⟩ else (s.fail (.token k)).reading
      | [] => (s.fail (.token k)).reading := by
  unfold expect
  cases hs : s.ahead with
  | nil => rw [next?_of_nil hs]
  | cons t ts =>
    rw [next?_of_cons hs]
    simp only [apply_ite Outcome.reading]
    rfl

theorem passes_of_expect {s r : Cursor} {k : Token.Kind} {span : Span}
    (h : (s.expect k).reading = ⟨.ok span, r⟩) :
    s.Passes [⟨k, span⟩] r ∧ r.nextId = s.nextId := by
  rw [reading_expect] at h
  split at h
  · rename_i t ts hs
    split at h
    · rename_i hk
      cases h
      subst hk
      exact ⟨passes_of_ahead hs, rfl⟩
    · cases h
  · cases h

theorem expect_of_kind_ne {s : Cursor} {k : Token.Kind} (h : s.kind ≠ k) :
    (s.expect k).reading = (s.fail (.token k)).reading := by
  rw [reading_expect]
  split
  · rename_i t ts hs
    exact if_neg fun hk => h (kind_of_ahead (hs.trans (by rw [← hk])))
  · rfl

@[simp] theorem expect_cons (k : Token.Kind) (a : Span) (ts : List Token) (e : Span) (i : Nat) :
    (expect ⟨⟨k, a⟩ :: ts, e, i⟩ k).reading = ⟨.ok a, ⟨ts, e, i⟩⟩ := by
  simp [reading_expect]

theorem reading_expectName (s : Cursor) :
    s.expectName.reading = match s.ahead with
      | ⟨.ident name, _⟩ :: ts => ⟨.ok name, { s with ahead := ts }⟩
      | _ => (s.fail .name).reading := by
  unfold expectName
  cases hs : s.ahead with
  | nil => rw [next?_of_nil hs]
  | cons t ts =>
    obtain ⟨k, span⟩ := t
    rw [next?_of_cons hs]
    cases k with
    | _ => rfl

theorem passes_of_expectName {s r : Cursor} {x : String}
    (h : s.expectName.reading = ⟨.ok x, r⟩) :
    s.Passes [⟨.ident x, s.span⟩] r ∧ r.nextId = s.nextId := by
  rw [reading_expectName] at h
  split at h
  · rename_i y a ts hs
    cases h
    have hspan := span_of_ahead hs
    exact ⟨hspan ▸ passes_of_ahead hs, rfl⟩
  · cases h

theorem expectName_of_kind_ne {s : Cursor} (h : ∀ x, s.kind ≠ .ident x) :
    s.expectName.reading = (s.fail .name).reading := by
  rw [reading_expectName]
  split
  · rename_i hs
    exact absurd (kind_of_ahead hs) (h _)
  · rfl

@[simp] theorem expectName_cons (x : String) (a : Span) (ts : List Token) (e : Span) (i : Nat) :
    (expectName ⟨⟨.ident x, a⟩ :: ts, e, i⟩).reading = ⟨.ok x, ⟨ts, e, i⟩⟩ := by
  rw [reading_expectName]

end Cursor

namespace Parse

open Cursor Outcome

/-- The rest of a function type that starts with the parenthesis at `a`. -/
def functionType (a : Span) (s : Cursor) : Reading TypeExpr :=
  (params s).reading.bind fun ps r =>
  (r.expect .fatArrow).reading.bind fun _ r =>
  (typeExpr r).reading.bind fun result r =>
  ⟨.ok (.function ⟨a.start, result.span.stop⟩ ps result), r⟩

theorem reading_typeExpr (s : Cursor) :
    (typeExpr s).reading = match s.ahead with
      | ⟨.ident name, span⟩ :: ts =>
        if name = "boolean" then ⟨.ok (.boolean span), { s with ahead := ts }⟩
        else if name = "number" then ⟨.ok (.number span), { s with ahead := ts }⟩
        else ⟨.error ⟨.unknownType name, span⟩, { s with ahead := ts }⟩
      | ⟨.leftParen, span⟩ :: ts => functionType span { s with ahead := ts }
      | _ => (s.fail .type).reading := by
  rw [typeExpr]
  cases hs : s.ahead with
  | nil => rw [next?_of_nil hs]
  | cons t ts =>
    obtain ⟨k, span⟩ := t
    rw [next?_of_cons hs]
    cases k with
    | ident name =>
      simp only [apply_ite Outcome.reading]
      rfl
    | leftParen =>
      simp only [reading_since]
      refine reading_bind fun ps r _ => ?_
      refine reading_bind fun _ r _ => ?_
      exact reading_bind fun result r _ => rfl
    | _ => rfl

/-- What can follow the parameter `p`: a comma with more of them, or the parenthesis. -/
def moreParams (p : ParamDecl) (s : Cursor) : Reading (List ParamDecl) :=
  match s.ahead with
  | ⟨.comma, _⟩ :: ts =>
    (params { s with ahead := ts }).reading.bind fun ps r => ⟨.ok (p :: ps), r⟩
  | _ => (s.expect .rightParen).reading.bind fun _ r => ⟨.ok [p], r⟩

theorem moreParams_of_kind_ne {p : ParamDecl} {s : Cursor} (h : s.kind ≠ .comma) :
    moreParams p s = (s.expect .rightParen).reading.bind fun _ r => ⟨.ok [p], r⟩ := by
  unfold moreParams
  split
  · rename_i hs
    exact absurd (kind_of_ahead hs) h
  · rfl

/-- What follows the name of a parameter that starts at `start`. -/
def paramType (start : Nat) (name : String) (s : Cursor) : Reading (List ParamDecl) :=
  (s.expect .colon).reading.bind fun _ r =>
  (typeExpr r).reading.bind fun type r =>
  moreParams ⟨name, type, ⟨start, type.span.stop⟩⟩ r

/-- Parameters of which there is at least one. -/
def someParams (s : Cursor) : Reading (List ParamDecl) :=
  s.expectName.reading.bind (paramType s.span.start)

theorem reading_params (s : Cursor) :
    (params s).reading = match s.ahead with
      | ⟨.rightParen, _⟩ :: ts => ⟨.ok [], { s with ahead := ts }⟩
      | _ => someParams s := by
  rw [params]
  split
  · rename_i span r hr hnext
    obtain ⟨ts, hs, rfl⟩ := ahead_of_next? hnext
    rw [hs]
    rfl
  · rename_i hnext
    split
    · rename_i hs
      exact absurd (next?_of_cons hs) (hnext _ _ _)
    · refine reading_bind fun name r _ => ?_
      refine reading_bind fun _ r _ => ?_
      refine reading_bind fun type r _ => ?_
      simp only [moreParams]
      split
      · rename_i span r hr hnext
        obtain ⟨ts, hs, rfl⟩ := ahead_of_next? hnext
        rw [hs, reading_since]
        exact reading_bind fun ps r _ => rfl
      · rename_i hnext
        split
        · rename_i hs
          exact absurd (next?_of_cons hs) (hnext _ _ _)
        · exact reading_bind fun _ r _ => rfl

theorem params_of_kind_ne {s : Cursor} (h : s.kind ≠ .rightParen) :
    (params s).reading = someParams s := by
  rw [reading_params]
  split
  · rename_i hs
    exact absurd (kind_of_ahead hs) h
  · rfl

theorem reading_complete (s : Cursor) (span : Span) (build : Node → Term) :
    (complete s span build).reading = ⟨.ok (build ⟨s.nextId, span⟩), s.tick⟩ := rfl

/-- The branches of a conditional that starts at `start`. -/
def branches (start : Nat) (test : Term) (s : Cursor) : Reading Term :=
  (expr s).reading.bind fun yes r =>
  (r.expect .colon).reading.bind fun _ r =>
  (expr r).reading.bind fun no r =>
  ⟨.ok (.cond ⟨r.nextId, ⟨start, no.span.stop⟩⟩ test yes no), r.tick⟩

/-- What can follow a sum that starts at `start`: the branches of a conditional, or nothing. -/
def afterSum (start : Nat) (sum : Term) (s : Cursor) : Reading Term :=
  match s.ahead with
  | ⟨.question, _⟩ :: ts => branches start sum { s with ahead := ts }
  | _ => ⟨.ok sum, s⟩

/-- A sum that starts at `start`. -/
def sum (start : Nat) (s : Cursor) : Reading Term :=
  (operand s).reading.bind fun first r => (addends start first r).reading

theorem left_le_of_sum {start : Nat} {s r : Cursor} {res : Except ParseError Term}
    (h : sum start s = ⟨res, r⟩) : r.left ≤ s.left :=
  left_le_of_reading (x := (operand s).bind fun first r _ => addends start first r)
    ((reading_bind fun _ _ _ => rfl).trans h)

theorem afterSum_of_kind_ne {start : Nat} {sum : Term} {s : Cursor} (h : s.kind ≠ .question) :
    afterSum start sum s = ⟨.ok sum, s⟩ := by
  unfold afterSum
  split
  · rename_i hs
    exact absurd (kind_of_ahead hs) h
  · rfl

theorem reading_expr (s : Cursor) :
    (expr s).reading = (sum s.span.start s).bind (afterSum s.span.start) := by
  rw [expr, sum, Reading.bind_assoc]
  refine reading_bind fun first r _ => ?_
  refine reading_bind fun sum r _ => ?_
  unfold afterSum
  split
  · rename_i span r hr hnext
    obtain ⟨ts, hs, rfl⟩ := ahead_of_next? hnext
    rw [hs, reading_since]
    refine reading_bind fun yes r _ => ?_
    refine reading_bind fun _ r _ => ?_
    exact reading_bind fun no r _ => reading_complete ..
  · rename_i hnext
    split
    · rename_i hs
      exact absurd (next?_of_cons hs) (hnext _ _ _)
    · rfl

theorem reading_addends (start : Nat) (sum : Term) (s : Cursor) :
    (addends start sum s).reading = match s.ahead with
      | ⟨.plus, _⟩ :: ts =>
        (operand { s with ahead := ts }).reading.bind fun next r =>
        (addends start (.add ⟨r.nextId, ⟨start, next.span.stop⟩⟩ sum next) r.tick).reading
      | _ => ⟨.ok sum, s⟩ := by
  rw [addends]
  split
  · rename_i span r hr hnext
    obtain ⟨ts, hs, rfl⟩ := ahead_of_next? hnext
    rw [hs, reading_since]
    refine reading_bind fun next r _ => ?_
    rfl
  · rename_i hnext
    split
    · rename_i hs
      exact absurd (next?_of_cons hs) (hnext _ _ _)
    · rfl

theorem addends_of_kind_ne {start : Nat} {sum : Term} {s : Cursor} (h : s.kind ≠ .plus) :
    (addends start sum s).reading = ⟨.ok sum, s⟩ := by
  rw [reading_addends]
  split
  · rename_i hs
    exact absurd (kind_of_ahead hs) h
  · rfl

theorem reading_operand (s : Cursor) :
    (operand s).reading = (atom s).reading.bind fun callee r => (calls callee r).reading := by
  rw [operand]
  exact reading_bind fun callee r _ => rfl

theorem reading_calls (callee : Term) (s : Cursor) :
    (calls callee s).reading = match s.ahead with
      | ⟨.leftParen, _⟩ :: ts =>
        (args { s with ahead := ts }).reading.bind fun (as, close) r =>
        (calls (.call ⟨r.nextId, callee.span.join close⟩ callee as) r.tick).reading
      | _ => ⟨.ok callee, s⟩ := by
  rw [calls]
  split
  · rename_i span r hr hnext
    obtain ⟨ts, hs, rfl⟩ := ahead_of_next? hnext
    rw [hs, reading_since]
    refine reading_bind fun as r _ => ?_
    rfl
  · rename_i hnext
    split
    · rename_i hs
      exact absurd (next?_of_cons hs) (hnext _ _ _)
    · rfl

theorem calls_of_kind_ne {callee : Term} {s : Cursor} (h : s.kind ≠ .leftParen) :
    (calls callee s).reading = ⟨.ok callee, s⟩ := by
  rw [reading_calls]
  split
  · rename_i hs
    exact absurd (kind_of_ahead hs) h
  · rfl

/-- What can follow the argument `a`: a comma with more of them, or the parenthesis. -/
def moreArgs (a : Term) (s : Cursor) : Reading (List Term × Span) :=
  match s.ahead with
  | ⟨.comma, _⟩ :: ts =>
    (args { s with ahead := ts }).reading.bind fun (as, close) r => ⟨.ok (a :: as, close), r⟩
  | _ => (s.expect .rightParen).reading.bind fun close r => ⟨.ok ([a], close), r⟩

theorem moreArgs_of_kind_ne {a : Term} {s : Cursor} (h : s.kind ≠ .comma) :
    moreArgs a s = (s.expect .rightParen).reading.bind fun close r => ⟨.ok ([a], close), r⟩ := by
  unfold moreArgs
  split
  · rename_i hs
    exact absurd (kind_of_ahead hs) h
  · rfl

/-- Arguments of which there is at least one. -/
def someArgs (s : Cursor) : Reading (List Term × Span) := (expr s).reading.bind moreArgs

theorem reading_args (s : Cursor) :
    (args s).reading = match s.ahead with
      | ⟨.rightParen, close⟩ :: ts => ⟨.ok ([], close), { s with ahead := ts }⟩
      | _ => someArgs s := by
  rw [args]
  split
  · rename_i close r hr hnext
    obtain ⟨ts, hs, rfl⟩ := ahead_of_next? hnext
    rw [hs]
    rfl
  · rename_i hnext
    split
    · rename_i hs
      exact absurd (next?_of_cons hs) (hnext _ _ _)
    · refine reading_bind fun a r _ => ?_
      unfold moreArgs
      split
      · rename_i span r hr hnext
        obtain ⟨ts, hs, rfl⟩ := ahead_of_next? hnext
        rw [hs, reading_since]
        exact reading_bind fun as r _ => rfl
      · rename_i hnext
        split
        · rename_i hs
          exact absurd (next?_of_cons hs) (hnext _ _ _)
        · exact reading_bind fun _ r _ => rfl

theorem args_of_kind_ne {s : Cursor} (h : s.kind ≠ .rightParen) :
    (args s).reading = someArgs s := by
  rw [reading_args]
  split
  · rename_i hs
    exact absurd (kind_of_ahead hs) h
  · rfl

theorem startsArrow_iff {ts : List Token} :
    startsArrow ts = true ↔ (∃ w, ts.map (·.kind) = .rightParen :: .fatArrow :: w) ∨
      ∃ x w, ts.map (·.kind) = .ident x :: .colon :: w := by
  constructor
  · intro h
    unfold startsArrow at h
    split at h
    · exact .inl ⟨_, rfl⟩
    · exact .inr ⟨_, _, rfl⟩
    · cases h
  · rintro (⟨w, h⟩ | ⟨x, w, h⟩)
    all_goals
      obtain ⟨⟨_, _⟩, _, rfl, rfl, h'⟩ := List.map_eq_cons_iff.1 h
      obtain ⟨⟨_, _⟩, _, rfl, rfl, -⟩ := List.map_eq_cons_iff.1 h'
      rfl

/-- The rest of an arrow function that starts with the parenthesis at `a`. -/
def arrow (a : Span) (s : Cursor) : Reading Term :=
  (params s).reading.bind fun ps r =>
  (r.expect .fatArrow).reading.bind fun _ r =>
  (expr r).reading.bind fun body r =>
  ⟨.ok (.func ⟨r.nextId, ⟨a.start, body.span.stop⟩⟩ ps body), r.tick⟩

/-- The rest of an expression in parentheses, the first of them at `a`. -/
def parens (a : Span) (s : Cursor) : Reading Term :=
  (expr s).reading.bind fun inner r =>
  (r.expect .rightParen).reading.bind fun close r =>
  ⟨.ok (inner.withSpan (a.join close)), r⟩

theorem reading_atom (s : Cursor) :
    (atom s).reading = match s.ahead with
      | ⟨.number v, span⟩ :: ts =>
        ⟨.ok (.number ⟨s.nextId, span⟩ v), ({ s with ahead := ts } : Cursor).tick⟩
      | ⟨.bool v, span⟩ :: ts =>
        ⟨.ok (.bool ⟨s.nextId, span⟩ v), ({ s with ahead := ts } : Cursor).tick⟩
      | ⟨.ident x, span⟩ :: ts =>
        ⟨.ok (.var ⟨s.nextId, span⟩ x), ({ s with ahead := ts } : Cursor).tick⟩
      | ⟨.leftParen, span⟩ :: ts =>
        if startsArrow ts then arrow span { s with ahead := ts }
        else parens span { s with ahead := ts }
      | _ => (s.fail .expression).reading := by
  rw [atom]
  cases hs : s.ahead with
  | nil => rw [next?_of_nil hs]
  | cons t ts =>
    obtain ⟨k, span⟩ := t
    rw [next?_of_cons hs]
    cases k with
    | leftParen =>
      simp only [reading_since]
      split
      · refine reading_bind fun ps r _ => ?_
        refine reading_bind fun _ r _ => ?_
        exact reading_bind fun body r _ => reading_complete ..
      · refine reading_bind fun inner r _ => ?_
        exact reading_bind fun close r _ => rfl
    | _ => rfl

theorem atom_open (a : Span) (ts : List Token) (e : Span) (i : Nat) :
    (atom ⟨⟨.leftParen, a⟩ :: ts, e, i⟩).reading =
      if startsArrow ts then arrow a ⟨ts, e, i⟩ else parens a ⟨ts, e, i⟩ := by
  rw [reading_atom]

/-- What can follow the semicolon after an expression that starts at `start`. -/
def seqRest (start : Nat) (body : Term) (s : Cursor) : Reading Term :=
  if startsStatement s.kind then
    (statements s).reading.bind fun rest r =>
    ⟨.ok (.seq ⟨r.nextId, ⟨start, rest.span.stop⟩⟩ body rest), r.tick⟩
  else ⟨.ok body, s⟩

/-- What can follow an expression that is a statement and starts at `start`. -/
def moreStatements (start : Nat) (body : Term) (s : Cursor) : Reading Term :=
  match s.ahead with
  | ⟨.semicolon, _⟩ :: ts => seqRest start body { s with ahead := ts }
  | _ => ⟨.ok body, s⟩

theorem moreStatements_of_kind_ne {start : Nat} {body : Term} {s : Cursor}
    (h : s.kind ≠ .semicolon) : moreStatements start body s = ⟨.ok body, s⟩ := by
  unfold moreStatements
  split
  · rename_i hs
    exact absurd (kind_of_ahead hs) h
  · rfl

/-- Statements of which the first is an expression. -/
def exprStatements (s : Cursor) : Reading Term :=
  (expr s).reading.bind (moreStatements s.span.start)

/-- What the binding of `name`, which starts at `start`, is followed by. -/
def constBody (start : Nat) (name : String) (init : Term) (s : Cursor) : Reading Term :=
  if startsStatement s.kind then
    (statements s).reading.bind fun rest r =>
    ⟨.ok (.const ⟨r.nextId, ⟨start, rest.span.stop⟩⟩ name init rest), r.tick⟩
  else ⟨.error ⟨.missingConstBody name s.kind, s.span⟩, s⟩

/-- The rest of a binding that starts with the keyword at `a`. -/
def constStatements (a : Span) (s : Cursor) : Reading Term :=
  s.expectName.reading.bind fun name r =>
  (r.expect .equals).reading.bind fun _ r =>
  (expr r).reading.bind fun init r =>
  (r.expect .semicolon).reading.bind fun _ r =>
  constBody a.start name init r

theorem reading_statements (s : Cursor) :
    (statements s).reading = match s.ahead with
      | ⟨.const, span⟩ :: ts => constStatements span { s with ahead := ts }
      | _ => exprStatements s := by
  rw [statements]
  split
  · rename_i span r hr hnext
    obtain ⟨ts, hs, rfl⟩ := ahead_of_next? hnext
    rw [hs, reading_since]
    refine reading_bind fun name r _ => ?_
    refine reading_bind fun _ r _ => ?_
    refine reading_bind fun init r _ => ?_
    refine reading_bind fun _ r _ => ?_
    unfold constBody
    split
    · exact reading_bind fun rest r _ => reading_complete ..
    · rfl
  · rename_i hnext
    split
    · rename_i hs
      exact absurd (next?_of_cons hs) (hnext _ _ _)
    · refine reading_bind fun body r _ => ?_
      unfold moreStatements
      split
      · rename_i span r hr hnext
        obtain ⟨ts, hs, rfl⟩ := ahead_of_next? hnext
        rw [hs, reading_since]
        simp only [seqRest]
        split
        · exact reading_bind fun rest r _ => reading_complete ..
        · rfl
      · rename_i hnext
        split
        · rename_i hs
          exact absurd (next?_of_cons hs) (hnext _ _ _)
        · rfl

theorem statements_of_kind_ne {s : Cursor} (h : s.kind ≠ .const) :
    (statements s).reading = exprStatements s := by
  rw [reading_statements]
  split
  · rename_i hs
    exact absurd (kind_of_ahead hs) h
  · rfl

/-- The end of a program. -/
def finish (t : Term) (s : Cursor) : Reading Term :=
  if s.ahead.isEmpty then ⟨.ok t, s⟩ else (s.fail .endOfFile).reading

theorem reading_program (s : Cursor) :
    (program s).reading = (statements s).reading.bind finish := by
  rw [program]
  refine reading_bind fun t r _ => ?_
  unfold finish
  split <;> rfl

end Parse

end ArrowLang
