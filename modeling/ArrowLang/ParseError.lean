import ArrowLang.Token

/-!
# Errors of the parser

A parser stops at the first token that the grammar does not allow, with what it asked for there.
-/

namespace ArrowLang

/-- What the grammar asks for at some place. -/
inductive Expectation where
  | token (kind : Token.Kind)
  | name
  | expression
  | type
  | endOfFile
deriving DecidableEq

inductive ParseError.Cause where
  | unexpected (wanted : Expectation) (found : Token.Kind)
  | missingConstBody (name : String) (found : Token.Kind)
  | unknownType (name : String)
deriving DecidableEq

structure ParseError where
  cause : ParseError.Cause
  span : Span
deriving DecidableEq

def Expectation.describe : Expectation → String
  | .token kind => kind.describe
  | .name => "name"
  | .expression => "expression"
  | .type => "type"
  | .endOfFile => "end of file"

/-- Advice on how to give what was asked for. -/
def Expectation.hint? : Expectation → Token.Kind → Option String
  | .token .colon, .equals => some "use ':' for types, '=' for values"
  | .token .colon, _ => some "parameters need a type: name: number"
  | .token .fatArrow, _ => some "arrow functions look like (x: number) => x"
  | .token .rightParen, .eof => some "add ')' to close the parenthesis"
  | .token .equals, _ => some "syntax: const name = value; rest"
  | .token .semicolon, _ => some "end a const binding with ';'"
  | .token _, _ => none
  | .expression, .semicolon => some "statement is incomplete"
  | .expression, .eof => some "the program must end with an expression"
  | .expression, _ => some "try a value, variable, function, or call"
  | .name, .number _ => some "names can't start with a number"
  | .name, _ => some "names start with a letter, '_' or '$'"
  | .type, _ => some "types are 'boolean', 'number', or (x: type) => type"
  | .endOfFile, .ident _ => some "separate expressions with ';'"
  | .endOfFile, .number _ => some "separate expressions with ';'"
  | .endOfFile, .fatArrow => some "arrow parameters need types: (x: number) => x"
  | .endOfFile, _ => none

namespace ParseError

def message (e : ParseError) : String :=
  match e.cause with
  | .unexpected (.token .rightParen) .eof => "Unclosed '(' - missing ')'"
  | .unexpected wanted found =>
    "Expected " ++ wanted.describe ++ ", found " ++ found.describe
  | .missingConstBody name found =>
    "Expected expression after `const " ++ name ++ "` binding, found " ++ found.describe
  | .unknownType name => "Unknown type `" ++ name ++ "`"

def hint? (e : ParseError) : Option String :=
  match e.cause with
  | .unexpected wanted found => wanted.hint? found
  | .missingConstBody name _ =>
    some ("a const binding needs a body that uses it, e.g. `const " ++ name ++ " = ...; " ++ name
      ++ "`")
  | .unknownType name => Expectation.type.hint? (.ident name)

end ParseError

end ArrowLang
