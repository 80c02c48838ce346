import ArrowLang.Styled

/-!
# Output of a run

A run ends with a status and leaves rows on standard output and on standard error. Whether they are
coloured is decided when they are written.
-/

namespace ArrowLang

/-- What a run leaves behind. -/
structure Output where
  status : Nat
  stdout : List Row
  stderr : List Row

/-- A row of plain text. -/
def textRow (text : String) : Row := [.plain text]

namespace Output

def success (rows : List Row) : Output := ⟨0, rows, []⟩

def failure (rows : List Row) : Output := ⟨1, [], rows⟩

/-- Puts rows before all others on standard error. -/
def withLog (log : List Row) (o : Output) : Output := { o with stderr := log ++ o.stderr }

def render (colors : Bool) (rows : List Row) : String :=
  String.ofList (rows.flatMap (Row.render colors))

/-- Whether output that goes to no terminal is coloured, by the variables of the environment.
`NO_COLOR` wins over the two that ask for colours, of which `CLICOLOR_FORCE` may be switched off
with a zero. -/
def useColors (valueOf : String → Option String) : Bool :=
  (valueOf "NO_COLOR").isNone &&
    ((valueOf "FORCE_COLOR").isSome || (valueOf "CLICOLOR_FORCE").any (· != "0"))

end Output

end ArrowLang
