import ArrowLang.Diagnostic
import ArrowLang.LineMap
import ArrowLang.Ordered
import ArrowLang.Styled

/-!
# Diagnostics for people

A diagnostic is shown as a headline, the lines of the source on which its labels start with the
labels marked below them, then notes and help:

    error[E0305]: mismatched argument 1: expected `boolean`, found `number`
      --> <source>:1:21
        |
      1 | ((x: boolean) => x)(42)
        |                     ^^ expected `boolean`
        |
        = note: parameter `x` is declared as `boolean`

The marks of a line are painted over one another into one row. A single message follows the row;
several of them hang below, the rightmost first. A diagnostic with a place that no words give cannot
be shown.
-/

namespace ArrowLang

/-- A label on the line where it starts. Its columns go from `start` up to but not with `stop`. -/
structure Mark where
  line : Nat
  start : Nat
  stop : Nat
  role : Role
  message : Option String
deriving DecidableEq

namespace Mark

open Offset

/-- The column before which a label from `first` to `last` stops. A label that goes on to another
line is marked to the end of its first one. -/
def stop? (map : LineMap) (first last : Position) : Option Nat :=
  if last.line = first.line then some last.column
  else add? (map.lineText first.line).length 1

/-- Every label has at least one column. -/
def ofLabel? (map : LineMap) (label : Label) : Option Mark := do
  let first ← map.position? label.span.start
  let last ← map.position? label.span.stop
  let stop ← stop? map first last
  let next ← add? first.column 1
  return ⟨first.line, first.column, max stop next, label.role, label.message⟩

/-- The slots of a row that a mark fills: of as many as the second number, all but as many as the
first. -/
def slots? (m : Mark) : Option (Nat × Nat) := do
  let skipped ← sub? m.start 1
  let taken ← sub? m.stop 1
  return (skipped, taken)

/-- Secondary marks are painted first, so that a primary one wins where they overlap, and marks of
one role from left to right. -/
def before (a b : Mark) : Bool :=
  if a.role = b.role then a.start ≤ b.start else a.role = .secondary

def inOrder (marks : List Mark) : List Mark := Ordered.sort before marks

/-- Puts the role of a mark into the slots that it fills. -/
def paint? (slots : List (Option Role)) (m : Mark) : Option (List (Option Role)) := do
  let (skipped, taken) ← m.slots?
  return slots.mapIdx fun i slot => if skipped ≤ i && i < taken then some m.role else slot

/-- The roles of all columns up to the last one that is marked. -/
def roles? (marks : List Mark) : Option (List (Option Role)) := do
  let width := marks.foldl (fun w m => max w m.stop) 1
  let painted ← (inOrder marks).foldlM paint? (List.replicate width none)
  return (painted.reverse.dropWhile (·.isNone)).reverse

/-- The messages with their columns and roles, from left to right. -/
def messages (marks : List Mark) : List (Nat × Role × String) :=
  Ordered.sort (fun a b => a.1 ≤ b.1) ((inOrder marks).filterMap fun m =>
    m.message.map fun text => (m.start, m.role, text))

end Mark

namespace Snippet

def spaces (n : Nat) : String := String.ofList (List.replicate n ' ')

def padLeft (width : Nat) (text : String) : String := spaces (width - text.length) ++ text

def bar : Piece := .colored .blue "|"

/-- The start of a row without a line number. `gutter` is the width of the greatest number. -/
def margin (gutter : Nat) : Row := [.plain (spaces (gutter + 1) ++ " "), bar]

def numbered (gutter line : Nat) : Row :=
  [.boldColored .blue (padLeft (gutter + 1) (toString line)), .plain " ", bar]

def ofRole (role : Role) (text : String) : Piece :=
  match role with
  | .primary => .boldColored .red text
  | .secondary => .colored .blue text

def symbol : Option Role → Char
  | some .primary => '^'
  | some .secondary => '-'
  | none => ' '

/-- Columns that follow each other with the same role, as one piece. -/
def run (roles : List (Option Role)) : Piece :=
  let text := String.ofList (roles.map symbol)
  match roles.head?.join with
  | some role => ofRole role text
  | none => .plain text

def underline (roles : List (Option Role)) : Row := (roles.splitBy (· == ·)).map run

/-- The rows below a line of the source. -/
def markRows? (gutter : Nat) (marks : List Mark) : Option (List Row) := do
  let roles ← Mark.roles? marks
  let row := margin gutter ++ .plain " " :: underline roles
  return match Mark.messages marks with
    | [] => [row]
    | [(_, role, text)] => [row ++ [.plain " ", ofRole role text]]
    | several => row :: several.reverse.map fun (column, role, text) =>
      margin gutter ++
        [.plain (" " ++ spaces (column - 1)), ofRole role "|", .plain " ", ofRole role text]

/-- The lines on which marks start, in ascending order. -/
def lines (map : LineMap) (marks : List Mark) : List Nat :=
  ((List.range map.lineCount).map (· + 1)).filter fun n => marks.any (·.line == n)

/-- The width of the greatest of the line numbers, which are in ascending order. -/
def gutterWidth (shown : List Nat) : Nat := max 2 (toString (shown.getLast?.getD 1)).length

/-- A row of dots after a line, wherever lines are left out before the next one. -/
def dots (gutter n : Nat) : Option Nat → List Row
  | some next =>
    if next > n + 1 then [[.plain (spaces gutter ++ " "), .colored .blue "..."]] else []
  | none => []

/-- The given lines with their marks. -/
def lineRows? (map : LineMap) (gutter : Nat) (marks : List Mark) : List Nat → Option (List Row)
  | [] => some []
  | n :: rest => do
    let source := numbered gutter n ++ [.plain (" " ++ String.ofList (map.lineText n))]
    let below ← markRows? gutter (marks.filter (·.line == n))
    let others ← lineRows? map gutter marks rest
    return source :: below ++ dots gutter n rest.head? ++ others

def headline (d : Diagnostic) : Row :=
  let code := match d.code with
    | some code => [.plain "[", .boldColored .red code, .plain "]"]
    | none => []
  .boldColored .red "error" :: code ++ [.plain ": ", .bold d.message]

/-- The text of a line before and after `length` bytes at a column. Bytes past the end of the line
are not counted, and a character that is hit in part is left out. -/
def around? (line : Text) (column length : Nat) : Option (Text × Text) := do
  let start := Text.size (line.take (column - 1))
  let stop ← Offset.add? start length
  let cut ← line.nextCut? (min stop line.size)
  let (before, _) ← line.cut? start
  let (_, after) ← line.cut? cut
  return (before, after)

/-- The place of a suggestion, and the text of its line before and after what it replaces. -/
def replaced? (map : LineMap) (s : Suggestion) : Option (Position × Text × Text) := do
  let position ← map.position? s.span.start
  let parts ← around? (map.lineText position.line) position.column s.span.length
  return (position, parts)

def footnote (gutter : Nat) (kind text : String) : Row :=
  [.plain (spaces (gutter + 1) ++ " "), .colored .cyan "=", .plain " ", .boldColored .cyan kind,
    .plain (": " ++ text)]

def suggestionRows? (map : LineMap) (gutter : Nat) (s : Suggestion) : Option (List Row) := do
  let (position, before, after) ← replaced? map s
  let tildes := String.ofList (List.replicate s.replacement.length '~')
  return [margin gutter,
    numbered gutter position.line ++ [.plain (" " ++ String.ofList before),
      .colored .green s.replacement, .plain (String.ofList after)],
    margin gutter ++
      [.plain (" " ++ spaces (position.column - 1)), .colored .green tildes]]

def helpRows? (map : LineMap) (gutter : Nat) (help : Help) : Option (List Row) := do
  let fix ← help.suggestion.mapM (suggestionRows? map gutter)
  return footnote gutter "help" help.message :: fix.getD []

/-- The rows of notes and help. -/
def footer? (map : LineMap) (gutter : Nat) (d : Diagnostic) : Option (List Row) := do
  let help ← d.help.mapM (helpRows? map gutter)
  return d.notes.map (footnote gutter "note") ++ help.getD []

/-- The row that says where in a file a diagnostic is. -/
def place (file : String) (position : Position) : Row :=
  [.plain "  ", .colored .blue "-->",
    .plain (" " ++ (file ++ ":" ++ toString position.line ++ ":" ++ toString position.column))]

/-- All rows of a diagnostic. One without labels has no source to show. -/
def rows? (map : LineMap) (file : String) (d : Diagnostic) : Option (List Row) := do
  let marks ← d.labels.mapM (Mark.ofLabel? map)
  match d.primarySpan? with
  | none => return headline d :: (← footer? map 2 d)
  | some span =>
    let position ← map.position? span.start
    let shown := lines map marks
    let gutter := gutterWidth shown
    let source ← lineRows? map gutter marks shown
    let separator := if d.notes.isEmpty && d.help.isNone then [] else [margin gutter]
    let footer ← footer? map gutter d
    return headline d :: place file position :: margin gutter :: source ++ separator ++ footer

end Snippet

/-- The name of a program that comes from no file. -/
def Diagnostic.unnamed : String := "<source>"

/-- The text of a diagnostic about a source text. -/
def Diagnostic.render? (colors : Bool) (map : LineMap) (file : String) (d : Diagnostic) :
    Option Text := do
  let rows ← Snippet.rows? map file d
  return rows.flatMap (Row.render colors)

end ArrowLang
