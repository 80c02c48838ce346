/-!
# Error codes

Every kind of error has a code with an explanation.
-/

namespace ArrowLang

inductive Category where
  | syntactic
  | resolution
  | typing
deriving DecidableEq

def Category.name : Category → String
  | .syntactic => "Syntax"
  | .resolution => "Resolution"
  | .typing => "Type"

structure ErrorCode where
  code : String
  title : String
  category : Category
  description : String
  /-- A program with the error. -/
  sample : String
deriving DecidableEq

namespace ErrorCode

/-- All codes, in ascending order. -/
def all : List ErrorCode := [
  ⟨"E0001", "unexpected character", .syntactic,
    "The source contains a character that is not part of the language. Only `+` is available as an "
      ++ "operator.",
    "1 - 2"⟩,
  ⟨"E0002", "invalid number", .syntactic,
    "A numeric literal could not be read as a finite number.",
    "1e999"⟩,
  ⟨"E0100", "unexpected token", .syntactic,
    "The parser found a token that cannot appear at this position.",
    "(x: number) x"⟩,
  ⟨"E0101", "missing const body", .syntactic,
    "A `const` binding is only visible in the expression that follows it, so the program cannot "
      ++ "end right after the binding.",
    "const x = 1;"⟩,
  ⟨"E0102", "unknown type", .syntactic,
    "Parameter annotations must be `boolean`, `number`, or a function type such as `(x: number) => "
      ++ "boolean`.",
    "(s: string) => s"⟩,
  ⟨"E0200", "unknown variable", .resolution,
    "A variable is used outside the scope of any binding for it. Names are bound by function "
      ++ "parameters (visible in the body) and by `const` (visible in the rest of the program).",
    "(x: number) => y"⟩,
  ⟨"E0300", "condition is not boolean", .typing,
    "The condition of `c ? a : b` must have type `boolean`.",
    "1 ? 2 : 3"⟩,
  ⟨"E0301", "operand is not a number", .typing,
    "Both operands of `+` must have type `number`.",
    "1 + true"⟩,
  ⟨"E0302", "branches have different types", .typing,
    "Both branches of a conditional are checked and must have the same type, even though only one "
      ++ "of them runs.",
    "true ? 1 : false"⟩,
  ⟨"E0303", "call of a non-function", .typing,
    "Only values of function type can be called.",
    "const n = 1; n(2)"⟩,
  ⟨"E0304", "wrong number of arguments", .typing,
    "A call must pass exactly as many arguments as the function declares parameters. The count is "
      ++ "checked before any argument.",
    "((x: number) => x)(1, 2)"⟩,
  ⟨"E0305", "argument type mismatch", .typing,
    "Each argument must have the type of its parameter. Function types match when their parameter "
      ++ "and return types match position by position; parameter names do not matter.",
    "((x: boolean) => x)(42)"⟩]

def find? (code : String) : Option ErrorCode := all.find? (·.code == code)

end ErrorCode

end ArrowLang
