/-!
# Spans

A span is a pair of byte offsets, the second one exclusive. Spans that come from elsewhere than the
lexer need not be in order, and they need not fit any text.

Byte offsets, lines and columns are 64-bit words. A sum or a difference that is no word has no
result, and then nothing that is computed from it has one.
-/

namespace ArrowLang

namespace Offset

/-- The number of words. -/
def words : Nat := 0x10000000000000000

/-- The sum, if it is a word. -/
def add? (a b : Nat) : Option Nat := if a + b < words then some (a + b) else none

/-- The difference, if it is a word. -/
def sub? (a b : Nat) : Option Nat := if b ≤ a then some (a - b) else none

variable {a b c : Nat}

theorem add?_of_lt (h : a + b < words) : add? a b = some (a + b) := if_pos h

theorem sub?_of_le (h : b ≤ a) : sub? a b = some (a - b) := if_pos h

theorem add?_eq_some_iff : add? a b = some c ↔ a + b < words ∧ a + b = c := by
  simp [add?]

theorem sub?_eq_some_iff : sub? a b = some c ↔ b ≤ a ∧ a - b = c := by
  simp [sub?]

end Offset

structure Span where
  start : Nat
  stop : Nat
deriving DecidableEq, Inhabited

namespace Span

/-- The span of a node that no text stands for. -/
def zero : Span := ⟨0, 0⟩

/-- The smallest span that covers both. -/
def join (a b : Span) : Span := ⟨min a.start b.start, max a.stop b.stop⟩

/-- Number of bytes covered; none if the offsets are out of order. -/
def length (s : Span) : Nat := s.stop - s.start

def isEmpty (s : Span) : Bool := s.length == 0

theorem isEmpty_iff (s : Span) : s.isEmpty ↔ s.stop ≤ s.start := by
  simp [isEmpty, length, Nat.sub_eq_zero_iff_le]

end Span

end ArrowLang
