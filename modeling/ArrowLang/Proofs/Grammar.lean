import ArrowLang.Term.Shape
import ArrowLang.Token

/-!
# The grammar by layers of precedence

Each relation holds between the kinds of some tokens and what they stand for. Sums and applications
are folded to the left, conditionals nest to the right, and an arrow function, whose body goes on as
far as it can, stands only where nothing of its expression comes after it.

`Opens` is what the lookahead of the parser relies on: how an expression can start.
-/

namespace ArrowLang.Grammar

open Token

/-! ## Types -/

mutual

inductive Annotation : List Kind → Ty → Prop where
  | boolean : Annotation [.ident "boolean"] .boolean
  | number : Annotation [.ident "number"] .number
  | function {u v ps r} : Params u ps → Annotation v r →
      Annotation (.leftParen :: u ++ .rightParen :: .fatArrow :: v) (.function ps r)

/-- Parameters between parentheses. A comma after the last one may stand or not. -/
inductive Params : List Kind → List Param → Prop where
  | nil : Params [] []
  | last {x w t} : Annotation w t → Params (.ident x :: .colon :: w) [⟨x, t⟩]
  | cons {x u v t ps} : Annotation u t → Params v ps →
      Params (.ident x :: .colon :: u ++ .comma :: v) (⟨x, t⟩ :: ps)

end

/-! ## Expressions -/

mutual

inductive Expr : List Kind → Shape → Prop where
  | sum {o w t} : Sum o w t → Expr w t
  | cond {u v w c y n} : Sum false u c → Expr v y → Expr w n →
      Expr (u ++ .question :: v ++ .colon :: w) (.cond c y n)

/-- Operands with `+` between them, folded to the left. The flag tells whether the last one is an
arrow function; no other can be. -/
inductive Sum : Bool → List Kind → Shape → Prop where
  | operand {o w t} : Operand o w t → Sum o w t
  | add {o u v s t} : Sum false u s → Operand o v t → Sum o (u ++ .plus :: v) (.add s t)

inductive Operand : Bool → List Kind → Shape → Prop where
  | closed {w t} : Postfix w t → Operand false w t
  | arrow {u v ps b} : Params u ps → Expr v b →
      Operand true (.leftParen :: u ++ .rightParen :: .fatArrow :: v) (.func ps b)

/-- An atom with any number of argument lists, folded to the left. -/
inductive Postfix : List Kind → Shape → Prop where
  | atom {w t} : Atom w t → Postfix w t
  | call {u v f as} : Postfix u f → Args v as →
      Postfix (u ++ .leftParen :: v ++ [.rightParen]) (.call f as)

inductive Atom : List Kind → Shape → Prop where
  | number {v} : Atom [.number v] (.number v)
  | bool {v} : Atom [.bool v] (.bool v)
  | var {x} : Atom [.ident x] (.var x)
  | paren {w t} : Expr w t → Atom (.leftParen :: w ++ [.rightParen]) t

/-- Arguments between parentheses. A comma after the last one may stand or not. -/
inductive Args : List Kind → List Shape → Prop where
  | nil : Args [] []
  | last {w t} : Expr w t → Args w [t]
  | cons {u v t ts} : Expr u t → Args v ts → Args (u ++ .comma :: v) (t :: ts)

end

/-! ## Statements -/

/-- Statements nest to the right. A semicolon after the last expression adds nothing. -/
inductive Statements : List Kind → Shape → Prop where
  | last {w t} : Expr w t → Statements w t
  | trailing {w t} : Expr w t → Statements (w ++ [.semicolon]) t
  | seq {u v b r} : Expr u b → Statements v r → Statements (u ++ .semicolon :: v) (.seq b r)
  | const {x u v i r} : Expr u i → Statements v r →
      Statements (.const :: .ident x :: .equals :: u ++ .semicolon :: v) (.const x i r)

/-! ## How an expression starts and ends -/

/-- A token of this kind ends any expression before it. -/
def Ends (k : Kind) : Prop := k ≠ .leftParen ∧ k ≠ .plus ∧ k ≠ .question

instance (k : Kind) : Decidable (Ends k) := inferInstanceAs (Decidable (_ ∧ _ ∧ _))

/-- Where an expression starts: a name at its start is not followed by a token that ends it. -/
inductive Opens : List Kind → Prop where
  | number {v w} : Opens (.number v :: w)
  | bool {v w} : Opens (.bool v :: w)
  | leftParen {w} : Opens (.leftParen :: w)
  | name {x} : Opens [.ident x]
  | named {x k w} : ¬ Ends k → Opens (.ident x :: k :: w)

theorem Opens.append_cons {w : List Kind} (h : Opens w) {k : Kind} (hk : ¬ Ends k)
    (v : List Kind) : Opens (w ++ k :: v) := by
  cases h with
  | number => exact .number
  | bool => exact .bool
  | leftParen => exact .leftParen
  | name => exact .named hk
  | named h => exact .named h

theorem Atom.opens {w : List Kind} {t : Shape} (h : Atom w t) : Opens w := by
  cases h with
  | number => exact .number
  | bool => exact .bool
  | var => exact .name
  | paren => exact .leftParen

theorem Postfix.opens {w : List Kind} {t : Shape} : Postfix w t → Opens w
  | .atom h => h.opens
  | .call h _ => by
    simpa using h.opens.append_cons (by decide : ¬ Ends .leftParen) _

theorem Operand.opens {o : Bool} {w : List Kind} {t : Shape} (h : Operand o w t) : Opens w := by
  cases h with
  | closed h => exact h.opens
  | arrow => exact .leftParen

theorem Sum.opens {o : Bool} {w : List Kind} {t : Shape} : Sum o w t → Opens w
  | .operand h => h.opens
  | .add h _ => h.opens.append_cons (by decide : ¬ Ends .plus) _

theorem Expr.opens {w : List Kind} {t : Shape} (h : Expr w t) : Opens w := by
  cases h with
  | sum h => exact h.opens
  | cond h _ _ => simpa using h.opens.append_cons (by decide : ¬ Ends .question) _

end ArrowLang.Grammar
