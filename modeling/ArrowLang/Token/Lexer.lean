import ArrowLang.LexError
import ArrowLang.Token.Segment

/-!
# Tokens of a source text

`Token.scan` lists what the segments of a text amount to: a token or an error each, blanks and
comments nothing. `Token.lex` stops it at the first item after the twentieth error and closes the
tokens with one for the end of the text.
-/

namespace ArrowLang

namespace Token

/-- The token or error that a segment at `offset` amounts to, if any. -/
def ofSegment? (offset : Nat) (s : Segment) : Option (Except LexError Token) :=
  let span : Span := ⟨offset, offset + s.text.size⟩
  match s.kind with
  | .token kind => some (.ok ⟨kind, span⟩)
  | .overRange => some (.error ⟨.invalidNumber, span⟩)
  | .unexpected c => some (.error ⟨.unexpectedChar c, span⟩)
  | .blank | .lineComment | .blockComment => none

/-- The tokens and errors of segments that begin at `offset`. -/
def ofSegments (offset : Nat) : List Segment → List (Except LexError Token)
  | [] => []
  | s :: ss => (ofSegment? offset s).toList ++ ofSegments (offset + s.text.size) ss

/-- The tokens and errors of a text, in order. -/
def scan (t : Text) : List (Except LexError Token) := ofSegments 0 (Segment.split t)

/-- The items up to the `limit`-th error. -/
def upToErrors : Nat → List (Except LexError Token) → List (Except LexError Token)
  | 0, _ => []
  | _ + 1, [] => []
  | limit + 1, .ok t :: items => .ok t :: upToErrors (limit + 1) items
  | limit + 1, .error e :: items => .error e :: upToErrors limit items

end Token

/-- The tokens of a text, up to and with its end, and what went wrong on the way. -/
structure Lexed where
  tokens : List Token
  errors : List LexError
deriving DecidableEq

namespace Token

/-- The most errors one run reports. -/
def errorLimit : Nat := 20

def lex (t : Text) : Lexed :=
  let items := upToErrors errorLimit (scan t)
  let tokens := items.filterMap fun
    | .ok token => some token
    | .error _ => none
  let errors := items.filterMap fun
    | .ok _ => none
    | .error e => some e
  ⟨tokens ++ [⟨.eof, ⟨t.size, t.size⟩⟩], errors⟩

end Token

end ArrowLang
