import ArrowLang.ParseError

/-!
# A place in a list of tokens

A `Cursor` holds the tokens ahead, up to the end of the file, and the number of the next node.
Reading from it gives an `Outcome`: a value or an error together with the cursor where reading
stopped, at which no more tokens are ahead than before.
-/

namespace ArrowLang

structure Cursor where
  /-- The tokens before the end of the file. -/
  ahead : List Token
  /-- The span of the end of the file. -/
  eof : Span
  /-- The number that the next completed node gets. -/
  nextId : Nat
deriving DecidableEq

namespace Cursor

/-- The start of a list of tokens. All from its first end of file on is ignored; if it has none, the
file ends where the last token does. -/
def ofTokens (tokens : List Token) : Cursor where
  ahead := tokens.takeWhile (·.kind != .eof)
  eof := match tokens.find? (·.kind == .eof) with
    | some t => t.span
    | none =>
      let stop := (tokens.getLast?.map (·.span.stop)).getD 0
      ⟨stop, stop⟩
  nextId := 0

/-- How many tokens are ahead. -/
def left (s : Cursor) : Nat := s.ahead.length

/-- The kind of the token at the cursor. -/
def kind (s : Cursor) : Token.Kind := (s.ahead.head?.map (·.kind)).getD .eof

/-- The span of the token at the cursor. -/
def span (s : Cursor) : Span := (s.ahead.head?.map (·.span)).getD s.eof

theorem left_lt_of_cons {s : Cursor} {t : Token} {ts : List Token} (h : s.ahead = t :: ts) :
    ({ s with ahead := ts } : Cursor).left < s.left := by
  simp [left, h]

/-- The token at the cursor and the cursor after it. -/
def next? (s : Cursor) : Option (Token × { r : Cursor // r.left < s.left }) :=
  match h : s.ahead with
  | [] => none
  | t :: ts => some (t, ⟨{ s with ahead := ts }, left_lt_of_cons h⟩)

theorem next?_of_nil {s : Cursor} (h : s.ahead = []) : s.next? = none := by
  unfold next?
  split
  · rfl
  · simp_all

theorem next?_of_cons {s : Cursor} {t : Token} {ts : List Token} (h : s.ahead = t :: ts) :
    s.next? = some (t, ⟨{ s with ahead := ts }, left_lt_of_cons h⟩) := by
  unfold next?
  split
  · simp_all
  · rename_i t' ts' h'
    obtain ⟨rfl, rfl⟩ := List.cons.inj (h.symm.trans h')
    rfl

end Cursor

/-- What reading from `s` came to. -/
structure Outcome (s : Cursor) (α : Type) where
  result : Except ParseError α
  rest : Cursor
  left_le : rest.left ≤ s.left

namespace Outcome

variable {s : Cursor} {α β : Type}

/-- A value read without moving on. -/
def pure (a : α) (s : Cursor) : Outcome s α := ⟨.ok a, s, Nat.le_refl _⟩

/-- Reads on after a success, from where it stopped. -/
def bind (x : Outcome s α) (f : (a : α) → (r : Cursor) → r.left ≤ s.left → Outcome r β) :
    Outcome s β :=
  match x with
  | ⟨.error e, r, h⟩ => ⟨.error e, r, h⟩
  | ⟨.ok a, r, h⟩ =>
    let y := f a r h
    ⟨y.result, y.rest, Nat.le_trans y.left_le h⟩

/-- What was read from `r`, seen from an earlier place. -/
def since {r : Cursor} (h : r.left ≤ s.left) (x : Outcome r α) : Outcome s α :=
  ⟨x.result, x.rest, Nat.le_trans x.left_le h⟩

end Outcome

namespace Cursor

/-- Stops with an error about the token at the cursor. -/
def fail {α : Type} (s : Cursor) (wanted : Expectation) : Outcome s α :=
  ⟨.error ⟨.unexpected wanted s.kind, s.span⟩, s, Nat.le_refl _⟩

/-- Reads one token of the given kind. -/
def expect (s : Cursor) (kind : Token.Kind) : Outcome s Span :=
  match s.next? with
  | some (t, ⟨r, h⟩) =>
    if t.kind = kind then ⟨.ok t.span, r, Nat.le_of_lt h⟩ else s.fail (.token kind)
  | none => s.fail (.token kind)

/-- Reads a name. -/
def expectName (s : Cursor) : Outcome s String :=
  match s.next? with
  | some (⟨.ident name, _⟩, ⟨r, h⟩) => ⟨.ok name, r, Nat.le_of_lt h⟩
  | _ => s.fail .name

end Cursor

end ArrowLang
