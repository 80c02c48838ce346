import ArrowLang.Term

/-!
# Type errors

A type error has a cause and the term that it is reported at.
-/

namespace ArrowLang

inductive TypeError.Cause where
  | unknownVariable (name : String) (inScope : List String)
  | booleanExpected (found : Ty)
  | numberExpected (found : Ty)
  | branchMismatch (yes no : Ty)
  | notAFunction (found : Ty)
  | arityMismatch (expected found : Nat) (callee : Ty)
  /-- Positions of arguments count from 0. -/
  | paramMismatch (position : Nat) (param : String) (expected found : Ty)

structure TypeError where
  cause : TypeError.Cause
  term : Term

namespace TypeError

def span (e : TypeError) : Span := e.term.span

/-- The name of a kind of error in logs. -/
def Cause.kind : Cause → String
  | .unknownVariable .. => "UnknownVariable"
  | .booleanExpected .. => "BooleanExpected"
  | .numberExpected .. => "NumberExpected"
  | .branchMismatch .. => "BranchMismatch"
  | .notAFunction .. => "NotAFunction"
  | .arityMismatch .. => "ArityMismatch"
  | .paramMismatch .. => "ParamMismatch"

def message (e : TypeError) : String :=
  match e.cause with
  | .unknownVariable name _ => "unknown variable `" ++ name ++ "`"
  | .booleanExpected found => "expected boolean condition, found " ++ found.render
  | .numberExpected found => "expected number, found " ++ found.render
  | .branchMismatch yes no =>
    "branches have different types: " ++ yes.render ++ " and " ++ no.render
  | .notAFunction found => "type " ++ found.render ++ " is not a function"
  | .arityMismatch expected found _ =>
    "arity mismatch: expected " ++ toString expected ++ " arguments, found " ++ toString found
  | .paramMismatch position param expected found =>
    "argument " ++ toString (position + 1) ++ " for parameter `" ++ param ++ "`: expected "
      ++ expected.render ++ ", found " ++ found.render

end TypeError

end ArrowLang
