/-!
# Types

A type is `boolean`, `number` or a function type. Parameters have names, which are kept for messages
and never matter for whether two types are the same.
-/

namespace ArrowLang

mutual

inductive Ty where
  | boolean
  | number
  | function (params : List Param) (result : Ty)

/-- A parameter of a function type. -/
structure Param where
  name : String
  type : Ty

end

instance : Inhabited Ty := ⟨.boolean⟩

mutual

/-- Whether two types differ at most in names of parameters. -/
def Ty.same : Ty → Ty → Bool
  | .boolean, .boolean => true
  | .number, .number => true
  | .function ps r, .function qs s => Param.sameTypes ps qs && r.same s
  | _, _ => false

/-- Whether two parameter lists are equally long and have the same types in the same order. -/
def Param.sameTypes : List Param → List Param → Bool
  | [], [] => true
  | ⟨_, t⟩ :: ps, ⟨_, u⟩ :: qs => t.same u && Param.sameTypes ps qs
  | _, _ => false

end

mutual

/-- The type as it is written in a program. -/
def Ty.render : Ty → String
  | .boolean => "boolean"
  | .number => "number"
  | .function ps r => "(" ++ ", ".intercalate (Param.renderAll ps) ++ ") => " ++ r.render

def Param.renderAll : List Param → List String
  | [] => []
  | ⟨name, type⟩ :: ps => (name ++ ": " ++ type.render) :: Param.renderAll ps

end

end ArrowLang
