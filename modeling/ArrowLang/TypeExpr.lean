import ArrowLang.Span
import ArrowLang.Ty

/-!
# Type annotations

A type annotation is a type as a program writes it, with the span of each of its parts.
-/

namespace ArrowLang

mutual

inductive TypeExpr where
  | boolean (span : Span)
  | number (span : Span)
  | function (span : Span) (params : List ParamDecl) (result : TypeExpr)

/-- A parameter with its annotation. -/
structure ParamDecl where
  name : String
  type : TypeExpr
  span : Span

end

instance : Inhabited TypeExpr := ⟨.boolean default⟩

def TypeExpr.span : TypeExpr → Span
  | .boolean span | .number span | .function span _ _ => span

mutual

/-- The type that an annotation denotes. -/
def TypeExpr.toTy : TypeExpr → Ty
  | .boolean _ => .boolean
  | .number _ => .number
  | .function _ params result => .function (ParamDecl.toParams params) result.toTy

def ParamDecl.toParams : List ParamDecl → List Param
  | [] => []
  | ⟨name, type, _⟩ :: ps => ⟨name, type.toTy⟩ :: ParamDecl.toParams ps

end

mutual

/-- An annotation that denotes a type and that no text stands for. -/
def TypeExpr.ofTy : Ty → TypeExpr
  | .boolean => .boolean .zero
  | .number => .number .zero
  | .function params result => .function .zero (ParamDecl.ofParams params) (TypeExpr.ofTy result)

def ParamDecl.ofParams : List Param → List ParamDecl
  | [] => []
  | ⟨name, type⟩ :: ps => ⟨name, TypeExpr.ofTy type, .zero⟩ :: ParamDecl.ofParams ps

end

mutual

@[simp] theorem TypeExpr.toTy_ofTy : ∀ t : Ty, (TypeExpr.ofTy t).toTy = t
  | .boolean => rfl
  | .number => rfl
  | .function params result => by
    simp [TypeExpr.ofTy, TypeExpr.toTy, ParamDecl.toParams_ofParams params,
      TypeExpr.toTy_ofTy result]

@[simp] theorem ParamDecl.toParams_ofParams :
    ∀ ps : List Param, ParamDecl.toParams (ParamDecl.ofParams ps) = ps
  | [] => rfl
  | ⟨name, type⟩ :: ps => by
    simp [ParamDecl.ofParams, ParamDecl.toParams, TypeExpr.toTy_ofTy type,
      ParamDecl.toParams_ofParams ps]

end

end ArrowLang
