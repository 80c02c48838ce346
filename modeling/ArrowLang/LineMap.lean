import ArrowLang.Span
import ArrowLang.Text

/-!
# Lines and columns

A `LineMap` holds a text with the byte offset at which each of its lines starts. It turns offsets,
be they past the end or inside a character, into a one-based line and column, and gives the text of
a line.
-/

namespace ArrowLang

/-- A one-based line number and a one-based column. -/
structure Position where
  line : Nat
  column : Nat
deriving DecidableEq

structure LineMap where
  text : Text
  /-- The start of every line, in ascending order. The first is 0. -/
  starts : List Nat

namespace LineMap

open Offset

/-- The offsets just after each newline of a text that begins at `offset`. -/
def newlineEnds (offset : Nat) : Text → List Nat
  | [] => []
  | c :: cs =>
    let next := offset + c.utf8Size
    if c = '\n' then next :: newlineEnds next cs else newlineEnds next cs

def ofText (text : Text) : LineMap := ⟨text, 0 :: newlineEnds 0 text⟩

def lineCount (m : LineMap) : Nat := m.starts.length

/-- The line is the last one that starts at or before the offset. The column counts characters
from there, or bytes if the offset is not a cut of the text. -/
def position? (m : LineMap) (offset : Nat) : Option Position := do
  let index := (m.starts.takeWhile (· ≤ offset)).length - 1
  let start ← m.starts[index]?
  let bytes ← sub? offset start
  let before := ((m.text.slice? start offset).map (·.length)).getD bytes
  let line ← add? index 1
  let column ← add? before 1
  return ⟨line, column⟩

/-- The line with a one-based number, without its newline and any carriage returns before it. -/
def lineText? (m : LineMap) (line : Nat) : Option Text :=
  match line with
  | 0 => none
  | i + 1 => do
    let start ← m.starts[i]?
    let stop := match m.starts[i + 1]? with
      | some next => next - 1
      | none => m.text.size
    let text ← m.text.slice? start stop
    return text.trimEnd '\r'

/-- The text of a line, empty if there is none with that number. -/
def lineText (m : LineMap) (line : Nat) : Text := (m.lineText? line).getD []

end LineMap

end ArrowLang
