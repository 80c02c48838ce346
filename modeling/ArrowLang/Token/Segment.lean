import ArrowLang.Token
import ArrowLang.Token.Numeral

/-!
# Segments of a source text

A source text falls into segments: tokens, numerals out of range, characters that start no token,
blanks and comments. Each is the longest that the text at its start allows. `Segment.split` yields
all of them in order; written one after the other they are the text again.
-/

namespace ArrowLang

/-- What a segment stands for. -/
inductive Segment.Kind where
  | token (kind : Token.Kind)
  | overRange
  | unexpected (c : Char)
  | blank
  | lineComment
  | blockComment
deriving DecidableEq

structure Segment where
  kind : Segment.Kind
  text : Text
deriving DecidableEq

namespace Segment

/-- Space, tab, carriage return, newline and form feed. -/
def isBlank (c : Char) : Bool :=
  c == ' ' || c == '\t' || c == '\r' || c == '\n' || c == '\x0c'

def isNameStart (c : Char) : Bool := c.isAlpha || c == '_' || c == '$'

def isNamePart (c : Char) : Bool := isNameStart c || c.isDigit

/-- The token that a word is: a keyword or a name. -/
def wordKind (word : Text) : Token.Kind :=
  match String.ofList word with
  | "const" => .const
  | "true" => .bool true
  | "false" => .bool false
  | name => .ident name

/-- Splits a block comment after its opening mark. Comments nest, `depth` counts the ones inside
the first that are open, and one that is never closed takes all. -/
def scanBlockComment : Nat → Text → Text × Text
  | _, [] => ([], [])
  | depth, '/' :: '*' :: cs =>
    let (inside, rest) := scanBlockComment (depth + 1) cs
    ('/' :: '*' :: inside, rest)
  | 0, '*' :: '/' :: cs => (['*', '/'], cs)
  | depth + 1, '*' :: '/' :: cs =>
    let (inside, rest) := scanBlockComment depth cs
    ('*' :: '/' :: inside, rest)
  | depth, c :: cs =>
    let (inside, rest) := scanBlockComment depth cs
    (c :: inside, rest)

/-- Punctuation marks, comments and all else that starts with neither a letter nor a digit. -/
def scanMark (c : Char) (cs : Text) : Segment × Text :=
  match c, cs with
  | '/', '/' :: cs =>
    (⟨.lineComment, '/' :: '/' :: cs.takeWhile (· != '\n')⟩, cs.dropWhile (· != '\n'))
  | '/', '*' :: cs =>
    let (inside, rest) := scanBlockComment 0 cs
    (⟨.blockComment, '/' :: '*' :: inside⟩, rest)
  | '=', '>' :: cs => (⟨.token .fatArrow, ['=', '>']⟩, cs)
  | '=', cs => (⟨.token .equals, ['=']⟩, cs)
  | '+', cs => (⟨.token .plus, ['+']⟩, cs)
  | '?', cs => (⟨.token .question, ['?']⟩, cs)
  | ':', cs => (⟨.token .colon, [':']⟩, cs)
  | '(', cs => (⟨.token .leftParen, ['(']⟩, cs)
  | ')', cs => (⟨.token .rightParen, [')']⟩, cs)
  | ',', cs => (⟨.token .comma, [',']⟩, cs)
  | ';', cs => (⟨.token .semicolon, [';']⟩, cs)
  | c, cs => (⟨.unexpected c, [c]⟩, cs)

/-- The first segment of the text `c :: cs`, and what follows it. -/
def first (c : Char) (cs : Text) : Segment × Text :=
  if isBlank c then (⟨.blank, c :: cs.takeWhile isBlank⟩, cs.dropWhile isBlank)
  else if isNameStart c then
    let word := c :: cs.takeWhile isNamePart
    (⟨.token (wordKind word), word⟩, cs.dropWhile isNamePart)
  else if c.isDigit then
    let (numeral, rest) := Numeral.scan c cs
    let kind := if numeral.value.isFinite then .token (.number numeral.value) else .overRange
    (⟨kind, numeral.text⟩, rest)
  else scanMark c cs

theorem scanBlockComment_append (depth : Nat) (t : Text) :
    (scanBlockComment depth t).1 ++ (scanBlockComment depth t).2 = t := by
  fun_induction scanBlockComment depth t <;> simp_all

theorem scanMark_append (c : Char) (cs : Text) :
    (scanMark c cs).1.text ++ (scanMark c cs).2 = c :: cs := by
  fun_cases scanMark c cs
  case case2 cs _ _ h => simpa [h] using scanBlockComment_append 0 cs
  all_goals simp

/-- Splitting a segment off loses nothing. -/
theorem first_append (c : Char) (cs : Text) :
    (first c cs).1.text ++ (first c cs).2 = c :: cs := by
  unfold first
  split
  · simp
  split
  · simp
  split
  · exact Numeral.scan_append c cs
  · exact scanMark_append c cs

theorem scanMark_text_ne_nil (c : Char) (cs : Text) : (scanMark c cs).1.text ≠ [] := by
  fun_cases scanMark c cs <;> simp

/-- A segment is never empty. -/
theorem first_text_ne_nil (c : Char) (cs : Text) : (first c cs).1.text ≠ [] := by
  unfold first
  split
  · simp
  split
  · simp
  split
  · simp [Numeral.scan, Numeral.text]
  · exact scanMark_text_ne_nil c cs

theorem length_first_rest_lt (c : Char) (cs : Text) :
    (first c cs).2.length < (c :: cs).length := by
  have h := congrArg List.length (first_append c cs)
  have := List.length_pos_iff.2 (first_text_ne_nil c cs)
  simp only [List.length_append] at h
  omega

/-- All segments of a text, in order. -/
def split (t : Text) : List Segment :=
  match t with
  | [] => []
  | c :: cs => (first c cs).1 :: split (first c cs).2
termination_by t.length
decreasing_by exact length_first_rest_lt c cs

end Segment

end ArrowLang
