import ArrowLang.Proofs.NodeNumbers

/-!
# Parsing by position

A second parser for the same language, without a cursor. It keeps all tokens it was given, those
behind an end of file too, and reads the one at its position. How far an operator reaches is decided
by binding powers; infix operators, parameters and arguments are loops.

Nothing tells beforehand that the position stays at a token and that the parser comes to an end. So
there is no answer when a token is read that is not there, and none when functions call one another
deeper than a given depth.
-/

namespace ArrowLang

/-- All tokens, the position of the one to read, and the number of the next node. -/
structure Tape where
  tokens : List Token
  pos : Nat
  nextId : Nat

namespace Tape

/-- The start of a list of tokens. If its last token is not the end of the file, one is added where
that token stops. -/
def ofTokens (tokens : List Token) : Tape where
  tokens := match tokens.getLast? with
    | some ⟨.eof, _⟩ => tokens
    | last =>
      let stop := (last.map (·.span.stop)).getD 0
      tokens ++ [⟨.eof, ⟨stop, stop⟩⟩]
  pos := 0
  nextId := 0

/-- What is done on a tape: a value or an error and the tape that is left, if it comes to that. -/
abbrev Parser := ExceptT ParseError (StateT Tape Option)

/-- No answer, since calls are nested too deeply. -/
def tooDeep {α : Type} : Parser α := fun _ => none

/-! ## Tokens -/

/-- The token at the position, which has to be there. -/
def current : Parser Token := fun s => s.tokens[s.pos]?.map fun t => (.ok t, s)

/-- The kind of a token further on; past all tokens it is the end of the file. -/
def peek (n : Nat) : Parser Token.Kind := fun s =>
  some (.ok ((s.tokens[s.pos + n]?.map (·.kind)).getD .eof), s)

/-- Moves past a token, but not past the end of the file. -/
def advance : Parser Span := do
  let t ← current
  if t.kind ≠ .eof then modify fun s => { s with pos := s.pos + 1 }
  return t.span

/-- Moves past a token if it is of the given kind. -/
def accept (kind : Token.Kind) : Parser Bool := do
  let t ← current
  if t.kind = kind then
    let _ ← advance
    return true
  else return false

def expect (kind : Token.Kind) : Parser Span := do
  let t ← current
  if t.kind = kind then advance
  else throw ⟨.unexpected (.token kind) t.kind, t.span⟩

def expectName : Parser String := do
  let t ← current
  match t.kind with
  | .ident name =>
    let _ ← advance
    return name
  | kind => throw ⟨.unexpected .name kind, t.span⟩

/-- Completes a node over the given span. -/
def node (span : Span) (build : Node → Term) : Parser Term := fun s =>
  some (.ok (build ⟨s.nextId, span⟩), { s with nextId := s.nextId + 1 })

/-! ## Types -/

mutual

def typeExpr : Nat → Parser TypeExpr
  | 0 => tooDeep
  | depth + 1 => do
    let t ← current
    match t.kind with
    | .ident name =>
      let span ← advance
      if name = "boolean" then return .boolean span
      else if name = "number" then return .number span
      else throw ⟨.unknownType name, span⟩
    | .leftParen =>
      let _ ← advance
      let ps ← params depth []
      let _ ← expect .rightParen
      let _ ← expect .fatArrow
      let result ← typeExpr depth
      return .function ⟨t.span.start, result.span.stop⟩ ps result
    | kind => throw ⟨.unexpected .type kind, t.span⟩

/-- The parameters up to the parenthesis that closes them, after those already found. -/
def params : Nat → List ParamDecl → Parser (List ParamDecl)
  | 0, _ => tooDeep
  | depth + 1, found => do
    let t ← current
    if t.kind = .rightParen then return found
    else
      let name ← expectName
      let _ ← expect .colon
      let type ← typeExpr depth
      let p : ParamDecl := ⟨name, type, ⟨t.span.start, type.span.stop⟩⟩
      if ← accept .comma then params depth (found ++ [p])
      else return found ++ [p]

end

/-! ## Expressions -/

/-- How tightly an argument list binds. -/
def callPower : Nat := 20

/-- How tightly `+` binds on its left and on its right. -/
def sumPower : Nat × Nat := (10, 11)

/-- How tightly a conditional binds left of its `?` and right of its `:`. -/
def condPower : Nat × Nat := (2, 1)

/-- Whether the parenthesis at the position is that of an arrow function. -/
def looksLikeArrow : Parser Bool := do
  let first ← peek 1
  let second ← peek 2
  match first, second with
  | .rightParen, .fatArrow => return true
  | .ident _, .colon => return true
  | _, _ => return false

mutual

/-- An expression of operators that bind at least as tightly as `power`. -/
def exprAt : Nat → Nat → Parser Term
  | 0, _ => tooDeep
  | depth + 1, power => do
    let t ← current
    let first ← primary depth
    climb depth power t.span.start first

/-- Goes on with an expression that starts at `start`, as long as operators bind tightly enough. -/
def climb : Nat → Nat → Nat → Term → Parser Term
  | 0, _, _, _ => tooDeep
  | depth + 1, power, start, left => do
    let t ← current
    match t.kind with
    | .leftParen =>
      if callPower < power then return left
      else
        let called ← call depth left
        climb depth power start called
    | .question =>
      if condPower.1 < power then return left
      else
        let _ ← advance
        let yes ← exprAt depth 0
        let _ ← expect .colon
        let no ← exprAt depth condPower.2
        let cond ← node ⟨start, no.span.stop⟩ (.cond · left yes no)
        climb depth power start cond
    | .plus =>
      if sumPower.1 < power then return left
      else
        let _ ← advance
        let right ← exprAt depth sumPower.2
        let sum ← node ⟨start, right.span.stop⟩ (.add · left right)
        climb depth power start sum
    | _ => return left

def primary : Nat → Parser Term
  | 0 => tooDeep
  | depth + 1 => do
    let t ← current
    match t.kind with
    | .number v =>
      let span ← advance
      node span (.number · v)
    | .bool v =>
      let span ← advance
      node span (.bool · v)
    | .ident x =>
      let span ← advance
      node span (.var · x)
    | .leftParen =>
      if ← looksLikeArrow then arrow depth
      else
        let opening ← advance
        let inner ← exprAt depth 0
        let closing ← expect .rightParen
        return inner.withSpan (opening.join closing)
    | kind => throw ⟨.unexpected .expression kind, t.span⟩

def arrow : Nat → Parser Term
  | 0 => tooDeep
  | depth + 1 => do
    let t ← current
    let _ ← expect .leftParen
    let ps ← params depth []
    let _ ← expect .rightParen
    let _ ← expect .fatArrow
    let body ← exprAt depth 0
    node ⟨t.span.start, body.span.stop⟩ (.func · ps body)

def call : Nat → Term → Parser Term
  | 0, _ => tooDeep
  | depth + 1, callee => do
    let _ ← expect .leftParen
    let as ← args depth []
    let closing ← expect .rightParen
    node (callee.span.join closing) (.call · callee as)

/-- The arguments up to the parenthesis that closes them, after those already found. -/
def args : Nat → List Term → Parser (List Term)
  | 0, _ => tooDeep
  | depth + 1, found => do
    let t ← current
    if t.kind = .rightParen then return found
    else
      let a ← exprAt depth 0
      if ← accept .comma then args depth (found ++ [a])
      else return found ++ [a]

end

/-! ## Programs -/

def statements : Nat → Parser Term
  | 0 => tooDeep
  | depth + 1 => do
    let first ← current
    if ← accept .const then
      let name ← expectName
      let _ ← expect .equals
      let init ← exprAt depth 0
      let _ ← expect .semicolon
      let t ← current
      if Parse.startsStatement t.kind then
        let rest ← statements depth
        node ⟨first.span.start, rest.span.stop⟩ (.const · name init rest)
      else throw ⟨.missingConstBody name t.kind, t.span⟩
    else
      let body ← exprAt depth 0
      if ← accept .semicolon then
        let t ← current
        if Parse.startsStatement t.kind then
          let rest ← statements depth
          node ⟨first.span.start, rest.span.stop⟩ (.seq · body rest)
        else return body
      else return body

def program (depth : Nat) : Parser Term := do
  let t ← statements depth
  let next ← current
  if next.kind = .eof then return t
  else throw ⟨.unexpected .endOfFile next.kind, next.span⟩

/-! ## One parser asked again and again -/

def ofCall (depth : Nat) : Parse.Call → Parser Term
  | .program => program depth
  | .expr => exprAt depth 0

/-- The tape before a call, its result, and the tape after it. -/
structure Answer where
  start : Tape
  result : Except ParseError Term
  rest : Tape

/-- The answers to calls that each start where the one before stopped, first of all from `s`. -/
def answers (depth : Nat) : Tape → List Parse.Call → Option (List Answer)
  | _, [] => some []
  | s, c :: cs =>
    (ofCall depth c s).bind fun (result, rest) =>
    (answers depth rest cs).map (⟨s, result, rest⟩ :: ·)

end Tape

end ArrowLang
