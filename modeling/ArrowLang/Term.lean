import ArrowLang.Binary64
import ArrowLang.TypeExpr

/-!
# Terms

A program is a single term. Every node of it has a number of its own and the span of its text.
-/

namespace ArrowLang

structure Node where
  id : Nat
  span : Span
deriving DecidableEq, Inhabited

inductive Term where
  | bool (node : Node) (value : Bool)
  | number (node : Node) (value : Binary64)
  | var (node : Node) (name : String)
  | add (node : Node) (left right : Term)
  | cond (node : Node) (test yes no : Term)
  | func (node : Node) (params : List ParamDecl) (body : Term)
  | call (node : Node) (callee : Term) (args : List Term)
  | seq (node : Node) (body rest : Term)
  | const (node : Node) (name : String) (init rest : Term)
deriving Inhabited

namespace Term

def node : Term → Node
  | bool n _ | number n _ | var n _ | add n _ _ | cond n _ _ _ | func n _ _ | call n _ _
  | seq n _ _ | const n _ _ _ => n

def id (t : Term) : Nat := t.node.id

def span (t : Term) : Span := t.node.span

/-- The same term with another node at its root. -/
def withNode (n : Node) : Term → Term
  | bool _ v => bool n v
  | number _ v => number n v
  | var _ x => var n x
  | add _ l r => add n l r
  | cond _ c t e => cond n c t e
  | func _ ps b => func n ps b
  | call _ f as => call n f as
  | seq _ b r => seq n b r
  | const _ x i r => const n x i r

/-- The same term over another span, its number kept. -/
def withSpan (s : Span) (t : Term) : Term := t.withNode ⟨t.id, s⟩

@[simp] theorem node_withNode (n : Node) (t : Term) : (t.withNode n).node = n := by
  cases t <;> rfl

@[simp] theorem id_withSpan (s : Span) (t : Term) : (t.withSpan s).id = t.id := by
  simp [withSpan, id]

@[simp] theorem span_withSpan (s : Span) (t : Term) : (t.withSpan s).span = s := by
  simp [withSpan, span]

/-- How messages speak of a term. -/
def describe : Term → String
  | bool .. => "boolean literal"
  | number .. => "number literal"
  | var .. => "variable"
  | add .. => "addition"
  | cond .. => "conditional"
  | func .. => "function"
  | call .. => "call"
  | seq .. => "sequence"
  | const .. => "const binding"

end Term

end ArrowLang
