import FurthestMatch.CommandLine

/-!
# The program

Reads the sources of a command, and prints its answer.
-/

namespace FurthestMatch.Program

/-- What is left of a stream. -/
partial def readLines (stream : IO.FS.Stream) (before : String) : IO String := do
  let line ← stream.getLine
  if line.isEmpty then return before else readLines stream (before ++ line)

def attempt (read : IO String) : IO (Except ReadError Text) := do
  try
    return .ok (← read).toList
  catch
    | .noFileOrDirectory .. => return .error .missing
    | .inappropriateType .. => return .error .directory
    | _ => return .error .notText

def readSource : Source → IO (Except ReadError Text)
  | .argument text => return .ok text.toList
  | .standardInput => do attempt (readLines (← IO.getStdin) "")
  | .file name => attempt (IO.FS.readFile name)

def respond (arguments : List String) : IO Response := do
  match Command.ofArguments arguments with
  | .error error => return error.response
  | .ok command =>
    let texts ← command.sources.mapM fun source => return (source, ← readSource source)
    return command.respond fun source => (texts.lookup source).getD (.error .missing)

end FurthestMatch.Program

def main (arguments : List String) : IO UInt32 := do
  let response ← FurthestMatch.Program.respond arguments
  (← IO.getStdout).putStr (String.ofList response.output)
  (← IO.getStderr).putStr (String.ofList response.errors)
  return response.code.toUInt32
