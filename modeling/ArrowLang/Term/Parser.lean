import ArrowLang.Term
import ArrowLang.Token.Cursor

/-!
# Terms from tokens

The grammar, read from left to right with at most two tokens of lookahead past a parenthesis:

* a program is a list of statements up to the end of the file; `const x = e; rest` and `e; rest`
  nest to the right, and a semicolon after the last expression may stand or not;
* an expression is a sum, or `sum ? expression : expression`;
* a sum is a list of operands, folded to the left;
* an operand is an atom with any number of argument lists;
* an atom is a literal, a name, an arrow function or an expression in parentheses. An arrow function
  takes the longest expression for its body, so nothing can follow it within an operand.

Nodes are numbered when they are complete. Parentheses are no node, but they widen the span of the
term inside them.
-/

namespace ArrowLang

namespace Parse

/-- Completes a node over the given span. -/
def complete (s : Cursor) (span : Span) (build : Node → Term) : Outcome s Term :=
  ⟨.ok (build ⟨s.nextId, span⟩), { s with nextId := s.nextId + 1 }, Nat.le_refl _⟩

mutual

/-- A type annotation. -/
def typeExpr (s : Cursor) : Outcome s TypeExpr :=
  match s.next? with
  | some (⟨.ident name, span⟩, ⟨r, h⟩) =>
    if name = "boolean" then ⟨.ok (.boolean span), r, Nat.le_of_lt h⟩
    else if name = "number" then ⟨.ok (.number span), r, Nat.le_of_lt h⟩
    else ⟨.error ⟨.unknownType name, span⟩, r, Nat.le_of_lt h⟩
  | some (⟨.leftParen, span⟩, ⟨r, _⟩) =>
    .since (by omega) <|
      (params r).bind fun ps r _ =>
      (r.expect .fatArrow).bind fun _ r _ =>
      (typeExpr r).bind fun result r _ =>
      .pure (.function ⟨span.start, result.span.stop⟩ ps result) r
  | _ => s.fail .type
termination_by 2 * s.left

/-- The rest of a parameter list, with the parenthesis that closes it. -/
def params (s : Cursor) : Outcome s (List ParamDecl) :=
  match s.next? with
  | some (⟨.rightParen, _⟩, ⟨r, h⟩) => ⟨.ok [], r, Nat.le_of_lt h⟩
  | _ =>
    s.expectName.bind fun name r _ =>
    (r.expect .colon).bind fun _ r _ =>
    (typeExpr r).bind fun type r _ =>
    let p : ParamDecl := ⟨name, type, ⟨s.span.start, type.span.stop⟩⟩
    match r.next? with
    | some (⟨.comma, _⟩, ⟨r', _⟩) =>
      .since (by omega) <|
        (params r').bind fun ps r _ => .pure (p :: ps) r
    | _ => (r.expect .rightParen).bind fun _ r _ => .pure [p] r
termination_by 2 * s.left + 1

end

/-- Whether the tokens after an opening parenthesis make it that of an arrow function. -/
def startsArrow : List Token → Bool
  | ⟨.rightParen, _⟩ :: ⟨.fatArrow, _⟩ :: _ => true
  | ⟨.ident _, _⟩ :: ⟨.colon, _⟩ :: _ => true
  | _ => false

mutual

def expr (s : Cursor) : Outcome s Term :=
  (operand s).bind fun first r _ =>
  (addends s.span.start first r).bind fun sum r _ =>
  match r.next? with
  | some (⟨.question, _⟩, ⟨r', _⟩) =>
    .since (by omega) <|
      (expr r').bind fun yes r _ =>
      (r.expect .colon).bind fun _ r _ =>
      (expr r).bind fun no r _ =>
      complete r ⟨s.span.start, no.span.stop⟩ (.cond · sum yes no)
  | _ => .pure sum r
termination_by 4 * s.left + 2

/-- The operands that are added to `sum`, which starts at `start`. -/
def addends (start : Nat) (sum : Term) (s : Cursor) : Outcome s Term :=
  match s.next? with
  | some (⟨.plus, _⟩, ⟨r, _⟩) =>
    .since (by omega) <|
      (operand r).bind fun next r _ =>
      (complete r ⟨start, next.span.stop⟩ (.add · sum next)).bind fun sum r _ =>
      addends start sum r
  | _ => .pure sum s
termination_by 4 * s.left

def operand (s : Cursor) : Outcome s Term :=
  (atom s).bind fun callee r _ => calls callee r
termination_by 4 * s.left + 1

/-- The argument lists that `callee` is applied to, one after the other. -/
def calls (callee : Term) (s : Cursor) : Outcome s Term :=
  match s.next? with
  | some (⟨.leftParen, _⟩, ⟨r, _⟩) =>
    .since (by omega) <|
      (args r).bind fun (as, close) r _ =>
      (complete r (callee.span.join close) (.call · callee as)).bind fun call r _ =>
      calls call r
  | _ => .pure callee s
termination_by 4 * s.left

/-- The rest of an argument list, with the span of the parenthesis that closes it. -/
def args (s : Cursor) : Outcome s (List Term × Span) :=
  match s.next? with
  | some (⟨.rightParen, close⟩, ⟨r, h⟩) => ⟨.ok ([], close), r, Nat.le_of_lt h⟩
  | _ =>
    (expr s).bind fun a r _ =>
    match r.next? with
    | some (⟨.comma, _⟩, ⟨r', _⟩) =>
      .since (by omega) <|
        (args r').bind fun (as, close) r _ => .pure (a :: as, close) r
    | _ => (r.expect .rightParen).bind fun close r _ => .pure ([a], close) r
termination_by 4 * s.left + 3

def atom (s : Cursor) : Outcome s Term :=
  match s.next? with
  | some (⟨.number v, span⟩, ⟨r, _⟩) => .since (by omega) <| complete r span (.number · v)
  | some (⟨.bool v, span⟩, ⟨r, _⟩) => .since (by omega) <| complete r span (.bool · v)
  | some (⟨.ident x, span⟩, ⟨r, _⟩) => .since (by omega) <| complete r span (.var · x)
  | some (⟨.leftParen, span⟩, ⟨r, _⟩) =>
    .since (by omega) <|
      if startsArrow r.ahead then
        (params r).bind fun ps r _ =>
        (r.expect .fatArrow).bind fun _ r _ =>
        (expr r).bind fun body r _ =>
        complete r ⟨span.start, body.span.stop⟩ (.func · ps body)
      else
        (expr r).bind fun inner r _ =>
        (r.expect .rightParen).bind fun close r _ =>
        .pure (inner.withSpan (span.join close)) r
  | _ => s.fail .expression
termination_by 4 * s.left

end

/-- Whether a statement can start with a token. -/
def startsStatement : Token.Kind → Bool
  | .const | .number _ | .bool _ | .ident _ | .leftParen => true
  | _ => false

def statements (s : Cursor) : Outcome s Term :=
  match s.next? with
  | some (⟨.const, span⟩, ⟨r, _⟩) =>
    .since (by omega) <|
      r.expectName.bind fun name r _ =>
      (r.expect .equals).bind fun _ r _ =>
      (expr r).bind fun init r _ =>
      (r.expect .semicolon).bind fun _ r _ =>
      if startsStatement r.kind then
        (statements r).bind fun rest r _ =>
        complete r ⟨span.start, rest.span.stop⟩ (.const · name init rest)
      else ⟨.error ⟨.missingConstBody name r.kind, r.span⟩, r, Nat.le_refl _⟩
  | _ =>
    (expr s).bind fun body r _ =>
    match r.next? with
    | some (⟨.semicolon, _⟩, ⟨r', _⟩) =>
      .since (by omega) <|
        if startsStatement r'.kind then
          (statements r').bind fun rest r _ =>
          complete r ⟨s.span.start, rest.span.stop⟩ (.seq · body rest)
        else .pure body r'
    | _ => .pure body r
termination_by s.left

def program (s : Cursor) : Outcome s Term :=
  (statements s).bind fun t r _ =>
  if r.ahead.isEmpty then .pure t r else r.fail .endOfFile

end Parse

/-- The program that a list of tokens is. -/
def Term.parse (tokens : List Token) : Except ParseError Term :=
  (Parse.program (.ofTokens tokens)).result

end ArrowLang
