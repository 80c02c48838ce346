import ArrowLang.Diagnostic.OfError
import ArrowLang.Term.Parser
import ArrowLang.Token.Lexer
import ArrowLang.Typing.Infer

/-!
# Programs

From a source text to its type, in three phases. A phase that fails stops the run.
-/

namespace ArrowLang

inductive Phase where
  | lex
  | parse
  | check
deriving DecidableEq

def Phase.name : Phase → String
  | .lex => "lex"
  | .parse => "parse"
  | .check => "check"

/-- Why a text is no term. -/
inductive ReadError where
  | lex (first : LexError) (rest : List LexError)
  | parse (error : ParseError)

namespace ReadError

def phase : ReadError → Phase
  | lex .. => .lex
  | parse _ => .parse

def diagnostics : ReadError → List Diagnostic
  | lex first rest => (first :: rest).map (·.diagnostic)
  | parse e => [e.diagnostic]

end ReadError

/-- The term that a text is. -/
def Term.read (text : Text) : Except ReadError Term :=
  let lexed := Token.lex text
  match lexed.errors with
  | first :: rest => .error (.lex first rest)
  | [] =>
    match Term.parse lexed.tokens with
    | .ok t => .ok t
    | .error e => .error (.parse e)

/-- How a program fares: no term, no type or a type. -/
inductive Verdict where
  | unreadable (error : ReadError)
  | illTyped (error : TypeError)
  | wellTyped (type : Ty)

namespace Verdict

def ofText (text : Text) : Verdict :=
  match Term.read text with
  | .error e => unreadable e
  | .ok t =>
    match (t.infer .empty).result with
    | .error e => illTyped e
    | .ok type => wellTyped type

/-- The last phase that was run. -/
def phase : Verdict → Phase
  | unreadable e => e.phase
  | illTyped _ | wellTyped _ => .check

def diagnostics : Verdict → List Diagnostic
  | unreadable e => e.diagnostics
  | illTyped e => [e.diagnostic]
  | wellTyped _ => []

def type? : Verdict → Option Ty
  | wellTyped type => some type
  | _ => none

end Verdict

end ArrowLang
