import ArrowLang.Binary64
import ArrowLang.Span

/-!
# Tokens

A token is a kind, with the value of a literal or the name of an identifier, and the span of its
text.
-/

namespace ArrowLang

namespace Token

inductive Kind where
  | number (value : Binary64)
  | bool (value : Bool)
  | ident (name : String)
  | const
  | plus
  | question
  | colon
  | fatArrow
  | equals
  | leftParen
  | rightParen
  | comma
  | semicolon
  | eof
deriving DecidableEq, Inhabited

/-- How messages speak of a token. -/
def Kind.describe : Kind → String
  | .number _ => "a number"
  | .bool _ => "'true' or 'false'"
  | .ident _ => "a name"
  | .const => "'const'"
  | .plus => "'+'"
  | .question => "'?'"
  | .colon => "':'"
  | .fatArrow => "'=>'"
  | .equals => "'='"
  | .leftParen => "'('"
  | .rightParen => "')'"
  | .comma => "','"
  | .semicolon => "';'"
  | .eof => "end of file"

end Token

structure Token where
  kind : Token.Kind
  span : Span
deriving DecidableEq, Inhabited

end ArrowLang
