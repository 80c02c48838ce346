import ArrowLang.Dump
import ArrowLang.Typing.Infer

/-!
# Log lines

What a run logs, each line at a level. The level that is asked for decides which lines are shown.
-/

namespace ArrowLang.Log

inductive Level where
  | off
  | error
  | warn
  | info
  | debug
  | trace
deriving DecidableEq

/-- The level with a name in any case; warnings and errors without one. -/
def Level.ofName (name : Option String) : Level :=
  match name.map String.toLower with
  | some "off" => .off
  | some "error" => .error
  | some "info" => .info
  | some "debug" => .debug
  | some "trace" => .trace
  | _ => .warn

def Level.rank : Level → Nat
  | .off => 0
  | .error => 1
  | .warn => 2
  | .info => 3
  | .debug => 4
  | .trace => 5

structure Entry where
  level : Level
  text : String
deriving DecidableEq

/-- The texts of the entries that a level lets through. -/
def shown (level : Level) (entries : List Entry) : List String :=
  (entries.filter (·.level.rank ≤ level.rank)).map (·.text)

def quoted (s : String) : String := String.ofList (Text.quote s.toList)

def parsed (path : String) (source : Text) : Entry :=
  ⟨.debug, "DEBUG tyro::commands::pipeline: parsed program path=" ++ quoted path ++ " bytes="
    ++ toString source.size⟩

def ofEvent : Event → Entry
  | .visit v =>
    ⟨.trace, "TRACE tyro_types::checker::check_term: check node=" ++ quoted v.node ++ " id="
      ++ toString v.id ++ " depth=" ++ toString v.depth⟩
  | .succeeded visited type =>
    ⟨.debug, "DEBUG tyro_types::checker: typecheck succeeded visited=" ++ toString visited
      ++ " ty=" ++ type.render⟩
  | .failed visited e =>
    ⟨.debug, "DEBUG tyro_types::checker: typecheck failed visited=" ++ toString visited
      ++ " kind=" ++ e.cause.kind ++ " error=" ++ e.message⟩

def checkFailed (e : TypeError) : Entry :=
  ⟨.debug, "DEBUG tyro::commands::check: check failed kind=" ++ e.cause.kind⟩

end ArrowLang.Log
