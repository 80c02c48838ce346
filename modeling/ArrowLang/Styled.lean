import ArrowLang.Text

/-!
# Styled text

A row of output is a list of pieces, each plain or in a style. With colours off a row is the text of
its pieces; with colours on, each styled piece stands between the escape sequences that turn its
style on and off.
-/

namespace ArrowLang

inductive Color where
  | red
  | green
  | yellow
  | blue
  | cyan
deriving DecidableEq

def Color.code : Color → String
  | .red => "31"
  | .green => "32"
  | .yellow => "33"
  | .blue => "34"
  | .cyan => "36"

structure Style where
  bold : Bool := false
  dimmed : Bool := false
  underlined : Bool := false
  color : Option Color := none
deriving DecidableEq

namespace Style

def codes (s : Style) : List String :=
  (if s.bold then ["1"] else []) ++ (if s.dimmed then ["2"] else [])
    ++ (if s.underlined then ["4"] else []) ++ (s.color.map Color.code).toList

/-- The sequence that turns the style on. -/
def opening (s : Style) : Text := ("\x1b[" ++ ";".intercalate s.codes ++ "m").toList

/-- The sequence that turns all styles off. -/
def reset : Text := "\x1b[0m".toList

/-- Turns the style on again after every reset inside a text. -/
def reopen (opening : Text) : Text → Text
  | '\x1b' :: '[' :: '0' :: 'm' :: cs => reset ++ opening ++ reopen opening cs
  | c :: cs => c :: reopen opening cs
  | [] => []

def paint (s : Style) (t : Text) : Text := s.opening ++ reopen s.opening t ++ reset

end Style

structure Piece where
  text : Text
  style : Option Style
deriving DecidableEq

namespace Piece

def plain (text : String) : Piece := ⟨text.toList, none⟩

def styled (style : Style) (text : String) : Piece := ⟨text.toList, some style⟩

def bold (text : String) : Piece := styled { bold := true } text

def colored (color : Color) (text : String) : Piece := styled { color := color } text

def boldColored (color : Color) (text : String) : Piece :=
  styled { bold := true, color := color } text

def dimmed (text : String) : Piece := styled { dimmed := true } text

def underlined (text : String) : Piece := styled { underlined := true } text

def render (colors : Bool) (p : Piece) : Text :=
  match p.style with
  | some s => if colors then s.paint p.text else p.text
  | none => p.text

end Piece

/-- One line of output. -/
abbrev Row := List Piece

/-- The row with its newline. -/
def Row.render (colors : Bool) (r : Row) : Text := r.flatMap (·.render colors) ++ ['\n']

end ArrowLang
