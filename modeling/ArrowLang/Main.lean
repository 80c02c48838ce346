import ArrowLang.Command.Run

/-!
# The program

Reads the file that the command names, runs the command and writes its output. The status is 101 if
the command has none.
-/

namespace ArrowLang

/-- The content of a file, if it can be read as text. -/
def Command.readFile (path : String) : IO (Except FileError Text) := do
  try
    return Folder.decode (← IO.FS.readBinFile path)
  catch
    | .noFileOrDirectory .. => return .error .notFound
    | .inappropriateType _ code _ =>
      return .error (if code == 21 then .isDirectory else .notDirectory)
    | .invalidArgument _ _ "name too long" => return .error .nameTooLong
    | e => return .error (.other (toString e))

end ArrowLang

open ArrowLang

def main (args : List String) : IO UInt32 := do
  let content ← match Command.ofArgs args with
    | .ok command => command.path?.mapM Command.readFile
    | .error _ => pure none
  let noColor ← IO.getEnv "NO_COLOR"
  let forceColor ← IO.getEnv "FORCE_COLOR"
  let cliColorForce ← IO.getEnv "CLICOLOR_FORCE"
  let colors := Output.useColors fun
    | "NO_COLOR" => noColor
    | "FORCE_COLOR" => forceColor
    | "CLICOLOR_FORCE" => cliColorForce
    | _ => none
  let level := Log.Level.ofName (← IO.getEnv "TYRO_LOG")
  let some output := Command.runArgs? level (fun _ => content.getD (.error .notFound)) args
    | return 101
  (← IO.getStderr).putStr (Output.render colors output.stderr)
  (← IO.getStdout).putStr (Output.render colors output.stdout)
  return output.status.toUInt32
