import ArrowLang.Command
import ArrowLang.Command.Log
import ArrowLang.Command.Output
import ArrowLang.Diagnostic.Report
import ArrowLang.Folder
import ArrowLang.Program

/-!
# Running a command

Everything that a command prints, as a function of the file that it reads. A command that cannot
show a diagnostic prints nothing.
-/

namespace ArrowLang

namespace Command

def programVersion : String := "0.1.0"

def errorRow (rest : Row) : Row := .boldColored .red "error" :: .plain ": " :: rest

/-- A title between bars. -/
def banner (title : Piece) : Row :=
  [.dimmed "===", .plain " ", title, .plain " ", .dimmed "==="]

def padRight (width : Nat) (text : String) : String :=
  text ++ Snippet.spaces (width - text.length)

def usageRows : List Row :=
  let heading (text : String) : Row := [.boldColored .yellow text]
  let command (name arg gap help : String) : Row :=
    [.plain "  ", .colored .green name, .plain " ", .colored .cyan arg, .plain (gap ++ help)]
  let bare (name gap help : String) : Row :=
    [.plain "  ", .colored .green name, .plain (gap ++ help)]
  let option (name gap help : String) : Row :=
    [.plain "  ", .colored .cyan name, .plain (gap ++ help)]
  [[.bold "Tyro", .plain " ", .dimmed programVersion,
      .plain " - A type checker for a small expression language"],
    [],
    [.boldColored .yellow "Usage", .plain ": ", .colored .green "tyro", .plain " ",
      .colored .cyan "<command>", .plain " ", .colored .cyan "[args]"],
    [],
    heading "Commands:",
    command "check" "<file>" "     " "Type check a file and print its type",
    command "lex" "<file>" "       " "Tokenize a file and print tokens",
    command "parse" "<file>" "     " "Parse a file and print the syntax tree",
    command "explain" "[code]" "   " "Explain an error code",
    bare "help" "             " "Show this help",
    bare "version" "          " "Show version",
    [],
    heading "Options:",
    option "--format human|json" "   " "Output format (default: human)",
    [],
    heading "Environment:",
    option "TYRO_LOG" "     " "Log filter, e.g. TYRO_LOG=debug (default: warn)",
    option "NO_COLOR" "     " "Disable colors",
    option "FORCE_COLOR" "  " "Force colors when piped"]

def Refusal.output : Refusal → Output
  | .missingFormat => .failure [errorRow [.plain "--format needs a value: human or json"]]
  | .unknownFormat name => .failure [errorRow [.plain ("unknown format `" ++ name ++ "`")]]
  | .missingFile action =>
    .failure [textRow ("Usage: tyro " ++ action.name ++ " <file.tyro> [--format human|json]")]
  | .unknown name =>
    ⟨1, usageRows, [errorRow [.plain ("unknown command `" ++ name ++ "`")], []]⟩

def codeList : List Row :=
  let row (c : ErrorCode) : Row :=
    [.plain "  ", .boldColored .red c.code,
      .plain ("  " ++ padRight 10 c.category.name ++ " " ++ c.title)]
  [.boldColored .yellow "Error codes:"] :: ErrorCode.all.map row
    ++ [[], textRow "Run `tyro explain <code>` for details."]

def codeDetails (c : ErrorCode) : List Row :=
  [[.boldColored .red "error", .plain "[", .boldColored .red c.code, .plain "]: ", .bold c.title],
    [],
    textRow ("  Category: " ++ c.category.name),
    [],
    textRow ("  " ++ c.description),
    [],
    [.plain "  ", .bold "Example", .plain ":"],
    [],
    textRow ("    " ++ c.sample),
    [],
    textRow "  Run `tyro check <file>` to see this error in context."]

/-- Codes are found in any case. -/
def explainOutput : Option String → Output
  | none => .success codeList
  | some code =>
    match ErrorCode.find? code.toUpper with
    | some c => .success (codeDetails c)
    | none => .failure
      [errorRow [.plain ("unknown error code `" ++ code ++ "`")],
        [],
        textRow "Error codes use the format E0NNN (e.g., E0301, E0305).",
        textRow "Run `tyro explain` to list them."]

/-- A source file. -/
structure Source where
  path : String
  map : LineMap

namespace Source

def reportRow? (s : Source) (phase : Phase) (ds : List Diagnostic) (type : Option Ty) :
    Option Row := do
  let report ← Report.ofDiagnostics? s.map s.path phase.name ds (type.map (·.render))
  return textRow (String.ofList report.render)

/-- How a phase that failed is reported. -/
def failed? (s : Source) (format : Format) (phase : Phase) (ds : List Diagnostic) :
    Option Output := do
  match format with
  | .json => return ⟨1, [← s.reportRow? phase ds none], []⟩
  | .human =>
    let title := match phase with
      | .lex => "Lex"
      | .parse => "Parse"
      | .check => "Check"
    let count := if ds.length = 1 then "1 error" else toString ds.length ++ " errors"
    let shown ← ds.mapM (Snippet.rows? s.map s.path)
    return .failure (shown.flatMap (· ++ [[]])
      ++ [banner (.boldColored .red (title ++ " FAILED: " ++ count))])

def tokenRow (t : Token) : Row :=
  textRow (Snippet.padLeft 4 (toString t.span.start) ++ ":" ++ padRight 3 (toString t.span.stop)
    ++ " " ++ t.kind.dump.compact)

def lex? (s : Source) (format : Format) : Option Output := do
  let lexed := Token.lex s.map.text
  let count := toString lexed.tokens.length
  if !lexed.errors.isEmpty then s.failed? format .lex (lexed.errors.map (·.diagnostic))
  else match format with
    | .json => return .success [← s.reportRow? .lex [] none]
    | .human =>
      return .success ([banner (.plain ("Tokens (" ++ count ++ ")")), []]
        ++ lexed.tokens.map tokenRow
        ++ [[], banner (.boldColored .green ("Lex: " ++ count ++ " tokens OK"))])

def parse? (s : Source) (format : Format) : Option (Output × List Log.Entry) := do
  match Term.read s.map.text with
  | .error e => return (← s.failed? format e.phase e.diagnostics, [])
  | .ok t =>
    let rows ← match format with
      | .json => do pure [← s.reportRow? .parse [] none]
      | .human =>
        pure [banner (.plain ("Syntax tree (" ++ t.describe ++ ")")), [],
          textRow (t.dump.pretty 0), [], banner (.boldColored .green "Parse OK")]
    return (.success rows, [Log.parsed s.path s.map.text])

def check? (s : Source) (format : Format) : Option (Output × List Log.Entry) := do
  match Term.read s.map.text with
  | .error e => return (← s.failed? format e.phase e.diagnostics, [])
  | .ok t =>
    let (result, events) := t.typecheck .empty
    let log := Log.parsed s.path s.map.text :: events.map Log.ofEvent
    match result with
    | .error e => return (← s.failed? format .check [e.diagnostic], log ++ [Log.checkFailed e])
    | .ok type =>
      let row ← match format with
        | .json => s.reportRow? .check [] (some type)
        | .human => pure [.plain (s.path ++ ": "), .boldColored .cyan type.render]
      return (.success [row], log)

end Source

/-- Runs a command that reads a file with the given content. -/
def fileOutput? (level : Log.Level) (action : Action) (path : String) (format : Format)
    (content : Except FileError Text) : Option Output := do
  match content with
  | .error e =>
    return .failure [errorRow [.plain "reading ", .underlined path, .plain (": " ++ e.message)]]
  | .ok text =>
    let source : Source := ⟨path, .ofText text⟩
    let (output, log) ← match action with
      | .lex => do pure (← source.lex? format, [])
      | .parse => source.parse? format
      | .check => source.check? format
    return output.withLog ((Log.shown level log).map textRow)

/-- Runs a command. Only the file that `Command.path?` names is read. -/
def run? (level : Log.Level) (read : String → Except FileError Text) : Command → Option Output
  | file action path format => fileOutput? level action path format (read path)
  | explain code => some (explainOutput code)
  | usage => some (.success usageRows)
  | version => some (.success [textRow ("tyro " ++ programVersion)])

/-- Runs the command that the arguments are, if they are one. -/
def runArgs? (level : Log.Level) (read : String → Except FileError Text) (args : List String) :
    Option Output :=
  match ofArgs args with
  | .ok command => run? level read command
  | .error refusal => some refusal.output

end Command

end ArrowLang
