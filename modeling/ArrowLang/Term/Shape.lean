import ArrowLang.Term

/-!
# Terms without a text

A `Shape` is a term without numbers and spans. `Shape.toTerm` builds the term, numbering the nodes
in post-order: the children from left to right, then the node itself.
-/

namespace ArrowLang

inductive Shape where
  | bool (value : Bool)
  | number (value : Binary64)
  | var (name : String)
  | add (left right : Shape)
  | cond (test yes no : Shape)
  | func (params : List Param) (body : Shape)
  | call (callee : Shape) (args : List Shape)
  | seq (body rest : Shape)
  | const (name : String) (init rest : Shape)
deriving Inhabited

namespace Shape

mutual

/-- The term with numbers from `next` on, and the first number it leaves. -/
def toTerm (next : Nat) : Shape → Term × Nat
  | bool v => (.bool ⟨next, .zero⟩ v, next + 1)
  | number v => (.number ⟨next, .zero⟩ v, next + 1)
  | var x => (.var ⟨next, .zero⟩ x, next + 1)
  | add l r =>
    let (l, next) := toTerm next l
    let (r, next) := toTerm next r
    (.add ⟨next, .zero⟩ l r, next + 1)
  | cond c t e =>
    let (c, next) := toTerm next c
    let (t, next) := toTerm next t
    let (e, next) := toTerm next e
    (.cond ⟨next, .zero⟩ c t e, next + 1)
  | func ps b =>
    let (b, next) := toTerm next b
    (.func ⟨next, .zero⟩ (ParamDecl.ofParams ps) b, next + 1)
  | call f as =>
    let (f, next) := toTerm next f
    let (as, next) := toTerms next as
    (.call ⟨next, .zero⟩ f as, next + 1)
  | seq b r =>
    let (b, next) := toTerm next b
    let (r, next) := toTerm next r
    (.seq ⟨next, .zero⟩ b r, next + 1)
  | const x i r =>
    let (i, next) := toTerm next i
    let (r, next) := toTerm next r
    (.const ⟨next, .zero⟩ x i r, next + 1)

def toTerms (next : Nat) : List Shape → List Term × Nat
  | [] => ([], next)
  | s :: ss =>
    let (t, next) := toTerm next s
    let (ts, next) := toTerms next ss
    (t :: ts, next)

end

end Shape

mutual

/-- The term without its numbers and spans. -/
def Term.shape : Term → Shape
  | .bool _ v => .bool v
  | .number _ v => .number v
  | .var _ x => .var x
  | .add _ l r => .add l.shape r.shape
  | .cond _ c t e => .cond c.shape t.shape e.shape
  | .func _ ps b => .func (ParamDecl.toParams ps) b.shape
  | .call _ f as => .call f.shape (Term.shapes as)
  | .seq _ b r => .seq b.shape r.shape
  | .const _ x i r => .const x i.shape r.shape

def Term.shapes : List Term → List Shape
  | [] => []
  | t :: ts => t.shape :: Term.shapes ts

end

end ArrowLang
