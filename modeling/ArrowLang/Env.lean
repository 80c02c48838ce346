import ArrowLang.Ordered
import ArrowLang.Ty

/-!
# Environments

An environment gives names their types. It is a stack of frames, each with the bindings of one
extension, and an inner binding hides an outer one of the same name.
-/

namespace ArrowLang

structure Env where
  /-- The bindings of each extension, the latest first, in frames from the innermost outwards. -/
  frames : List (List (String × Ty))

namespace Env

def empty : Env := ⟨[]⟩

instance : Inhabited Env := ⟨empty⟩

/-- All bindings, the latest first. -/
def bindings (env : Env) : List (String × Ty) := env.frames.flatten

/-- The type of the latest binding of a name. -/
def lookup (env : Env) (name : String) : Option Ty := env.bindings.lookup name

def contains (env : Env) (name : String) : Bool := (env.lookup name).isSome

/-- Adds bindings from left to right in a new frame. No bindings, no frame. -/
def extend (env : Env) (bindings : List (String × Ty)) : Env :=
  if bindings.isEmpty then env else ⟨bindings.reverse :: env.frames⟩

def bind (env : Env) (name : String) (type : Ty) : Env := env.extend [(name, type)]

@[simp] theorem lookup_empty (name : String) : empty.lookup name = none := rfl

/-- A new binding hides the old ones. -/
theorem lookup_extend (env : Env) (bs : List (String × Ty)) (name : String) :
    (env.extend bs).lookup name = (bs.reverse.lookup name).or (env.lookup name) := by
  unfold extend
  split
  · rename_i h
    simp [List.isEmpty_iff.1 h]
  · simp [lookup, bindings, List.lookup_append]

theorem lookup_bind (env : Env) (x : String) (type : Ty) (name : String) :
    (env.bind x type).lookup name = if name = x then some type else env.lookup name := by
  by_cases h : name = x
  · simp [bind, lookup_extend, h]
  · have hx : (name == x) = false := by simpa using h
    simp [bind, lookup_extend, List.lookup_cons, h, hx]

/-- The number of frames. -/
def depth (env : Env) : Nat := env.frames.length

/-- The names in scope, each once: by the innermost frame that has them, and those of one frame in
ascending order of their code points. -/
def names (env : Env) : List String :=
  (env.frames.flatMap fun frame => Ordered.sort (· ≤ ·) (frame.map Prod.fst)).eraseDups

end Env

end ArrowLang
