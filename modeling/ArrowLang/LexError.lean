import ArrowLang.Span

/-!
# Errors of the lexer

A character that starts no token, and a numeral that is no finite number.
-/

namespace ArrowLang

inductive LexError.Cause where
  | unexpectedChar (c : Char)
  | invalidNumber
deriving DecidableEq

structure LexError where
  cause : LexError.Cause
  span : Span
deriving DecidableEq

namespace LexError

def message (e : LexError) : String :=
  match e.cause with
  | .unexpectedChar c => "Unexpected character '" ++ c.toString ++ "'"
  | .invalidNumber => "Invalid number"

def hint? (e : LexError) : Option String :=
  match e.cause with
  | .unexpectedChar c =>
    if c ∈ ['-', '*', '/'] then some "only '+' is supported on numbers"
    else if c ∈ ['\x7b', '\x7d'] then
      some "function bodies are single expressions: (x: number) => x + 1"
    else none
  | .invalidNumber => none

end LexError

end ArrowLang
