import FurthestMatch.Catalogue
import FurthestMatch.CommandLine.Arguments
import FurthestMatch.Config.Json
import FurthestMatch.Config.Yaml
import FurthestMatch.Report
import FurthestMatch.Value.BlockStyle
import FurthestMatch.Value.Inspect

/-!
# The command line

What a command answers, given what can be read from its sources: an exit code and the texts for the two outputs.
A command that fails says why on the error output.
-/

namespace FurthestMatch

inductive ReadError where
  | missing
  | directory
  | notText
deriving DecidableEq, Repr

def ReadError.message : ReadError → String
  | .missing => "No such file or directory (os error 2)"
  | .directory => "Is a directory (os error 21)"
  | .notText => "stream did not contain valid UTF-8"

abbrev Reading := Source → Except ReadError Text

inductive CommandError where
  | lookup (error : LookupError)
  | reading (source : String) (error : ReadError)
  | config (name : String)
  | halted (why : Halt)
deriving DecidableEq, Repr

def CommandError.message : CommandError → String
  | .lookup error => error.message
  | .reading source error => s!"reading {source}: {error.message}"
  | .config name => s!"{name} is no configuration"
  | .halted .exhausted => "the grammar recurs without reading"
  | .halted .misaligned => "the text was left"

structure Response where
  code : Nat
  output : Text := []
  errors : Text := []
deriving DecidableEq, Repr

def Source.name : Source → String
  | .argument text => text
  | .standardInput => "stdin"
  | .file name => name

namespace Command

def sources : Command → List Source
  | .parse _ input _ _ config => input :: (config.map Source.file).toList
  | _ => []

def readSource (reading : Reading) : Source → Except CommandError Text
  | .argument text => .ok text.toList
  | source => (reading source).mapError (.reading source.name)

/-- The configuration in a file, which is JSON when the name says so and YAML otherwise. -/
def readConfig (reading : Reading) : Option String → Except CommandError Config
  | none => .ok {}
  | some name => do
    let text ← readSource reading (.file name)
    let config? := if ".json".toList.isSuffixOf name.toList then Config.ofJson? text else Config.ofYaml? text
    match config? with
    | some config => .ok config
    | none => .error (.config name)

def write (value : Value) : OutputFormat → Text
  | .json => value.pretty
  | .yaml => value.blockDocument
  | .debug => value.inspectSpread

def settled {α : Type} (w : Walk α) : Except CommandError α :=
  w.result.mapError .halted

def listing : Text :=
  "Available grammars:\n\n".toList ++ Catalogue.bundled.entries.flatMap fun entry =>
    "  ".toList ++ entry.name.toList ++ "\n    ".toList ++ entry.description.toList ++ ['\n']

def usage : Text :=
  ("Usage: weave parse [--grammar NAME] INPUT [--text] [--format FORMAT] [--no-dump] [--config FILE]\n" ++
    "       weave dump [--grammar NAME]\n" ++
    "       weave list-grammars\n").toList

def answer (reading : Reading) : Command → Except CommandError Response
  | .parse name input format withDrawing configName => do
    let grammar ← (Catalogue.bundled.grammar name).mapError .lookup
    let text ← readSource reading input
    let config ← readConfig reading configName
    match ← settled (Bundled.rulebook.parse config grammar text withDrawing) with
    | .ok value => return { code := 0, output := write value format ++ ['\n'] }
    | .error failure => return { code := 1, errors := failure.message }
  | .dump name => do
    let grammar ← (Catalogue.bundled.grammar name).mapError .lookup
    let drawn ← settled (Bundled.rulebook.render {} grammar [] false none)
    return { code := 0, output := drawn ++ ['\n'] }
  | .listGrammars => .ok { code := 0, output := listing }
  | .version => .ok { code := 0, output := "weave 0.1.0\n".toList }
  | .help => .ok { code := 0, output := usage }

def respond (reading : Reading) (command : Command) : Response :=
  match command.answer reading with
  | .ok response => response
  | .error error => { code := 1, errors := "Error: ".toList ++ error.message.toList ++ ['\n'] }

end Command

def UsageError.response (error : UsageError) : Response where
  code := 2
  errors := "error: ".toList ++ error.message.toList ++ "\n\n".toList ++ Command.usage

end FurthestMatch
