/-!
# The command line

Arguments are a command with what it works on, and options in between that choose the format of the
output. A name that ends in `.tyro` is itself a command: to check that file.
-/

namespace ArrowLang

inductive Format where
  | human
  | json
deriving DecidableEq

def Format.ofName? : String → Option Format
  | "human" => some .human
  | "json" => some .json
  | _ => none

/-- What can be done with a file. -/
inductive Action where
  | lex
  | parse
  | check
deriving DecidableEq

def Action.name : Action → String
  | .lex => "lex"
  | .parse => "parse"
  | .check => "check"

inductive Command where
  | file (action : Action) (path : String) (format : Format)
  | explain (code : Option String)
  | usage
  | version
deriving DecidableEq

namespace Command

/-- Why arguments are no command. -/
inductive Refusal where
  | missingFormat
  | unknownFormat (name : String)
  | missingFile (action : Action)
  | unknown (name : String)
deriving DecidableEq

/-- The last format that the arguments choose, `format` if none, and the arguments that are no
options. -/
def splitOptions (format : Format) : List String → Except Refusal (Format × List String)
  | [] => .ok (format, [])
  | ["--format"] => .error .missingFormat
  | "--format" :: name :: args =>
    match Format.ofName? name with
    | some format => splitOptions format args
    | none => .error (.unknownFormat name)
  | arg :: args =>
    if arg = "--json" then splitOptions .json args
    else if "--format=".toList.isPrefixOf arg.toList then
      let name := String.ofList (arg.toList.drop "--format=".length)
      match Format.ofName? name with
      | some format => splitOptions format args
      | none => .error (.unknownFormat name)
    else do
      let (format, rest) ← splitOptions format args
      return (format, arg :: rest)

/-- The command that a name stands for, with the argument after it. -/
def ofName (name : String) (arg : Option String) (format : Format) : Except Refusal Command :=
  let onFile (action : Action) : Except Refusal Command :=
    match arg with
    | some path => .ok (.file action path format)
    | none => .error (.missingFile action)
  match name with
  | "lex" => onFile .lex
  | "parse" => onFile .parse
  | "check" | "typecheck" => onFile .check
  | "explain" => .ok (.explain arg)
  | "help" | "--help" | "-h" => .ok .usage
  | "version" | "--version" | "-V" => .ok .version
  | other =>
    if ".tyro".toList.isSuffixOf other.toList then .ok (.file .check other format)
    else .error (.unknown other)

def ofArgs (args : List String) : Except Refusal Command := do
  let (format, rest) ← splitOptions .human args
  match rest with
  | [] => return .usage
  | name :: rest => ofName name rest.head? format

/-- The file that a command reads. -/
def path? : Command → Option String
  | file _ path _ => some path
  | _ => none

end Command

end ArrowLang
