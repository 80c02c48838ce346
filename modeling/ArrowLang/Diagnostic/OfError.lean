import ArrowLang.Diagnostic
import ArrowLang.LexError
import ArrowLang.ParseError
import ArrowLang.Spelling
import ArrowLang.Typing.Error

/-!
# Diagnostics of errors

Each error of a phase becomes one diagnostic, with a code of its own for every kind of error and a
primary label where it happened.
-/

namespace ArrowLang

open Diagnostic

def Diagnostic.withHint (hint : Option String) (d : Diagnostic) : Diagnostic :=
  match hint with
  | some h => d.withHelp h
  | none => d

def LexError.diagnostic (e : LexError) : Diagnostic :=
  let (code, label) := match e.cause with
    | .unexpectedChar _ => ("E0001", "unexpected character")
    | .invalidNumber => ("E0002", "invalid number")
  error e.message |>.withCode code |>.withPrimary e.span label |>.withHint e.hint?

def ParseError.diagnostic (e : ParseError) : Diagnostic :=
  let (code, label) := match e.cause with
    | .unexpected .. => ("E0100", "here")
    | .missingConstBody .. => ("E0101", "expected an expression here")
    | .unknownType _ => ("E0102", "not a type")
  error e.message |>.withCode code |>.withPrimary e.span label |>.withHint e.hint?

namespace TypeError

/-- A text between backquotes. -/
def quoted (text : String) : String := "`" ++ text ++ "`"

def arguments (n : Nat) : String :=
  toString n ++ (if n = 1 then " argument" else " arguments")

/-- Asks for the name in scope that is closest to an unknown one, if any is close. -/
def withSpelling (span : Span) (name : String) (inScope : List String) (d : Diagnostic) :
    Diagnostic :=
  match Spelling.closest? name inScope with
  | some closest =>
    d.withHelp ("did you mean " ++ quoted closest ++ "?") |>.withSuggestion span closest
  | none => if inScope.isEmpty then d.withNote "no variables are in scope here" else d

/-- Labels the branches of a conditional with their types. -/
def withBranches (t : Term) (yes no : Ty) (d : Diagnostic) : Diagnostic :=
  match t with
  | .cond _ _ y n =>
    d.withSecondary y.span ("this is " ++ quoted yes.render)
      |>.withSecondary n.span ("this is " ++ quoted no.render)
  | _ => d

def diagnostic (e : TypeError) : Diagnostic :=
  match e.cause with
  | .unknownVariable name inScope =>
    error ("unknown variable " ++ quoted name)
      |>.withCode "E0200"
      |>.withPrimary e.span "not found in this scope"
      |> withSpelling e.span name inScope
  | .booleanExpected found =>
    error ("condition must be boolean, found " ++ quoted found.render)
      |>.withCode "E0300"
      |>.withPrimary e.span ("this has type " ++ quoted found.render)
  | .numberExpected found =>
    error ("cannot add " ++ quoted found.render)
      |>.withCode "E0301"
      |>.withPrimary e.span ("expected `number`, found " ++ quoted found.render)
      |>.withNote "`+` is only defined on numbers"
  | .branchMismatch yes no =>
    error "conditional branches have different types"
      |>.withCode "E0302"
      |> withBranches e.term yes no
      |>.withPrimary e.span "branches must agree"
      |>.withNote "both branches are checked, even the one that does not run"
  | .notAFunction found =>
    error (quoted found.render ++ " is not a function")
      |>.withCode "E0303"
      |>.withPrimary e.span "called here"
  | .arityMismatch expected found callee =>
    error ("function takes " ++ arguments expected ++ " but " ++ toString found
        ++ (if found = 1 then " was" else " were") ++ " supplied")
      |>.withCode "E0304"
      |>.withPrimary e.span ("expected " ++ arguments expected)
      |>.withNote ("the function has type " ++ quoted callee.render)
  | .paramMismatch position param expected found =>
    error ("mismatched argument " ++ toString (position + 1) ++ ": expected "
        ++ quoted expected.render ++ ", found " ++ quoted found.render)
      |>.withCode "E0305"
      |>.withPrimary e.span ("expected " ++ quoted expected.render)
      |>.withNote ("parameter " ++ quoted param ++ " is declared as " ++ quoted expected.render)

end TypeError

end ArrowLang
