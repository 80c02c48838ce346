import ArrowLang.Binary64.Shortest
import ArrowLang.Term
import ArrowLang.Text.Quoted
import ArrowLang.Token

/-!
# Dumps

A dump shows how a value is built: the name of each constructor with its arguments. It is written in
one line, or with every argument on a line of its own.
-/

namespace ArrowLang

inductive Dump where
  | atom (text : String)
  | tuple (name : String) (items : List Dump)
  | record (name : String) (fields : List (String × Dump))
  | list (items : List Dump)

namespace Dump

def quoted (s : String) : Dump := atom (String.ofList (Text.quote s.toList))

mutual

/-- The value in one line. -/
def compact : Dump → String
  | atom text => text
  | tuple name items => name ++ "(" ++ ", ".intercalate (compactItems items) ++ ")"
  | record name fields =>
    name ++ " \x7b " ++ ", ".intercalate (compactFields fields) ++ " \x7d"
  | list items => "[" ++ ", ".intercalate (compactItems items) ++ "]"

def compactItems : List Dump → List String
  | [] => []
  | d :: ds => d.compact :: compactItems ds

def compactFields : List (String × Dump) → List String
  | [] => []
  | (key, d) :: fields => (key ++ ": " ++ d.compact) :: compactFields fields

end

/-- The start of a line at a depth. -/
def indent (depth : Nat) : String := String.ofList (List.replicate (4 * depth) ' ')

/-- Lines between two brackets, the second one on a line of its own. -/
def block (depth : Nat) (opening : String) (lines : List String) (closing : String) : String :=
  if lines.isEmpty then opening ++ closing
  else
    let lines := lines.map fun l => indent (depth + 1) ++ l ++ ",\n"
    opening ++ "\n" ++ String.join lines ++ indent depth ++ closing

mutual

/-- The value over several lines, the first of which is already indented to `depth`. -/
def pretty (depth : Nat) : Dump → String
  | atom text => text
  | tuple name items => block depth (name ++ "(") (prettyItems (depth + 1) items) ")"
  | record name fields =>
    block depth (name ++ " \x7b") (prettyFields (depth + 1) fields) "\x7d"
  | list items => block depth "[" (prettyItems (depth + 1) items) "]"

def prettyItems (depth : Nat) : List Dump → List String
  | [] => []
  | d :: ds => d.pretty depth :: prettyItems depth ds

def prettyFields (depth : Nat) : List (String × Dump) → List String
  | [] => []
  | (key, d) :: fields => (key ++ ": " ++ d.pretty depth) :: prettyFields depth fields

end

end Dump

open Dump

mutual

def Ty.dump : Ty → Dump
  | .boolean => atom "Boolean"
  | .number => atom "Number"
  | .function ps r => record "Function" [("params", list (Param.dumps ps)), ("ret", r.dump)]

def Param.dumps : List Param → List Dump
  | [] => []
  | ⟨name, type⟩ :: ps =>
    record "Param" [("name", quoted name), ("ty", type.dump)] :: Param.dumps ps

end

def Token.Kind.dump : Token.Kind → Dump
  | .number v => tuple "Number" [atom v.render]
  | .bool v => tuple "Bool" [atom (if v then "true" else "false")]
  | .ident x => tuple "Ident" [quoted x]
  | .const => atom "Const"
  | .plus => atom "Plus"
  | .question => atom "Question"
  | .colon => atom "Colon"
  | .fatArrow => atom "FatArrow"
  | .equals => atom "Eq"
  | .leftParen => atom "LParen"
  | .rightParen => atom "RParen"
  | .comma => atom "Comma"
  | .semicolon => atom "Semi"
  | .eof => atom "Eof"

def Span.dump (s : Span) : Dump :=
  record "Span" [("start", atom (toString s.start)), ("end", atom (toString s.stop))]

mutual

def TypeExpr.dump (t : TypeExpr) : Dump :=
  let kind := match t with
    | .boolean _ => atom "Boolean"
    | .number _ => atom "Number"
    | .function _ ps r => record "Function" [("params", list (ParamDecl.dumps ps)), ("ret", r.dump)]
  record "TypeExpr" [("kind", kind), ("span", t.span.dump)]

def ParamDecl.dumps : List ParamDecl → List Dump
  | [] => []
  | ⟨name, type, span⟩ :: ps =>
    record "ParamDecl" [("name", quoted name), ("ty", type.dump), ("span", span.dump)]
      :: ParamDecl.dumps ps

end

mutual

def Term.dump (t : Term) : Dump :=
  let kind := match t with
    | .bool _ v => atom (if v then "True" else "False")
    | .number _ v => tuple "Number" [atom v.render]
    | .var _ x => tuple "Var" [quoted x]
    | .add _ l r => record "Add" [("left", l.dump), ("right", r.dump)]
    | .cond _ c y n =>
      record "If" [("cond", c.dump), ("then_branch", y.dump), ("else_branch", n.dump)]
    | .func _ ps b => record "Func" [("params", list (ParamDecl.dumps ps)), ("body", b.dump)]
    | .call _ f as => record "Call" [("callee", f.dump), ("args", list (Term.dumps as))]
    | .seq _ b r => record "Seq" [("body", b.dump), ("rest", r.dump)]
    | .const _ x i r => record "Const" [("name", quoted x), ("init", i.dump), ("rest", r.dump)]
  record "Term" [("id", tuple "NodeId" [atom (toString t.id)]), ("kind", kind),
    ("span", t.span.dump)]

def Term.dumps : List Term → List Dump
  | [] => []
  | t :: ts => t.dump :: Term.dumps ts

end

end ArrowLang
