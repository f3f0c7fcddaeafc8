import FurthestMatch.Text.Cursor

/-!
# Arguments of the command line

A command is a word, and options, flags and at most one operand in any order. An option takes its value from
behind an equals sign, from the rest of its short form, or from the next argument, which must not look like an
option itself. After `--` every argument is an operand.
-/

namespace FurthestMatch

inductive OutputFormat where
  | json
  | yaml
  | debug
deriving DecidableEq, Repr

inductive Source where
  | argument (text : String)
  | standardInput
  | file (name : String)
deriving DecidableEq, Repr

inductive Command where
  | parse (grammar : String) (input : Source) (format : OutputFormat) (withDrawing : Bool) (config : Option String)
  | dump (grammar : String)
  | listGrammars
  | version
  | help
deriving DecidableEq, Repr

inductive UsageError where
  | noCommand
  | unknownCommand (name : String)
  | unknownOption (argument : String)
  | missingValue (option : String)
  | unexpectedValue (option : String)
  | repeatedOption (option : String)
  | unknownFormat (name : String)
  | extraOperand (argument : String)
  | missingInput
deriving DecidableEq, Repr

def UsageError.message : UsageError → String
  | .noCommand => "a command is required"
  | .unknownCommand name => s!"unknown command '{name}'"
  | .unknownOption argument => s!"unexpected argument '{argument}'"
  | .missingValue option => s!"a value is required for '--{option}'"
  | .unexpectedValue option => s!"'--{option}' takes no value"
  | .repeatedOption option => s!"'--{option}' is given more than once"
  | .unknownFormat name => s!"'{name}' is no format: json, yaml, debug"
  | .extraOperand argument => s!"unexpected argument '{argument}'"
  | .missingInput => "an input is required"

inductive CommandOption where
  | grammar
  | format
  | config
  | text
  | noDump
  | help
deriving DecidableEq, Repr

namespace CommandOption

def name : CommandOption → String
  | .grammar => "grammar"
  | .format => "format"
  | .config => "config"
  | .text => "text"
  | .noDump => "no-dump"
  | .help => "help"

def letter? : CommandOption → Option Char
  | .grammar => some 'g'
  | .format => some 'f'
  | .config => some 'c'
  | .help => some 'h'
  | _ => none

def isFlag : CommandOption → Bool
  | .text | .noDump | .help => true
  | _ => false

end CommandOption

inductive Argument where
  | option (key : CommandOption) (value : String)
  | operand (text : String)
deriving DecidableEq, Repr

namespace Argument

inductive Form where
  /-- Two dashes alone. -/
  | ending
  | long (name : Text) (value : Option Text)
  | short (letter : Char) (value : Text)
  | plain
deriving DecidableEq, Repr

/-- The form of an argument. One dash alone is an operand. -/
def form (argument : String) : Form :=
  match argument.toList with
  | ['-', '-'] => .ending
  | '-' :: '-' :: rest => .long (rest.takeWhile (· ≠ '=')) (rest.dropWhile (· ≠ '=')).tail?
  | '-' :: letter :: rest => .short letter rest
  | _ => .plain

/-- The value in the short form of an option, behind an equals sign or not; nothing there is no value. -/
def shortValue? : Text → Option Text
  | [] => none
  | '=' :: value => some value
  | value => some value

def option? (options : List CommandOption) : Form → Option (CommandOption × Option Text)
  | .long name value? => (options.find? fun key => key.name.toList == name).map (·, value?)
  | .short letter value => (options.find? fun key => key.letter? == some letter).map (·, shortValue? value)
  | _ => none

/-- Reads the arguments of a command with the given options, one of which may be `awaiting` its value. Nothing is
read after a call for help. -/
def readAll (options : List CommandOption) : (awaiting : Option CommandOption) → List String →
    Except UsageError (List Argument)
  | some key, [] => .error (.missingValue key.name)
  | none, [] => .ok []
  | some key, argument :: rest =>
    if form argument = .plain then (readAll options none rest).map (.option key argument :: ·)
    else .error (.missingValue key.name)
  | none, argument :: rest =>
    match form argument, option? options (form argument) with
    | .ending, _ => .ok (rest.map .operand)
    | .plain, _ => (readAll options none rest).map (.operand argument :: ·)
    | _, none => .error (.unknownOption argument)
    | _, some (.help, _) => .ok [.option .help ""]
    | _, some (key, some value) =>
      if key.isFlag then .error (.unexpectedValue key.name)
      else (readAll options none rest).map (.option key (String.ofList value) :: ·)
    | _, some (key, none) =>
      if key.isFlag then (readAll options none rest).map (.option key "" :: ·)
      else readAll options (some key) rest

end Argument

inductive CommandWord where
  | parse
  | dump
  | listGrammars
deriving DecidableEq, Repr

namespace CommandWord

def all : List CommandWord :=
  [.parse, .dump, .listGrammars]

def name : CommandWord → String
  | .parse => "parse"
  | .dump => "dump"
  | .listGrammars => "list-grammars"

def options : CommandWord → List CommandOption
  | .parse => [.grammar, .format, .config, .text, .noDump, .help]
  | .dump => [.grammar, .help]
  | .listGrammars => [.help]

def takesOperand : CommandWord → Bool
  | .parse => true
  | _ => false

end CommandWord

namespace OutputFormat

def ofName? : String → Option OutputFormat
  | "json" => some .json
  | "yaml" => some .yaml
  | "debug" => some .debug
  | _ => none

end OutputFormat

structure Arguments where
  options : List (CommandOption × String) := []
  operand? : Option String := none
deriving DecidableEq, Repr

namespace Arguments

def value? (a : Arguments) (key : CommandOption) : Option String :=
  a.options.lookup key

def isGiven (a : Arguments) (key : CommandOption) : Bool :=
  (a.value? key).isSome

def add (word : CommandWord) (a : Arguments) : Argument → Except UsageError Arguments
  | .option key value =>
    if a.isGiven key then .error (.repeatedOption key.name)
    else if key = .format ∧ (OutputFormat.ofName? value).isNone then .error (.unknownFormat value)
    else .ok { a with options := (key, value) :: a.options }
  | .operand text =>
    if word.takesOperand ∧ a.operand?.isNone then .ok { a with operand? := some text }
    else .error (.extraOperand text)

def grammar (a : Arguments) : String :=
  (a.value? .grammar).getD "json"

def source (a : Arguments) (operand : String) : Source :=
  if a.isGiven .text then .argument operand
  else if operand = "-" then .standardInput
  else .file operand

def command (a : Arguments) : CommandWord → Except UsageError Command
  | .parse => match a.operand? with
    | none => .error .missingInput
    | some operand =>
      let format := ((a.value? .format).bind OutputFormat.ofName?).getD .json
      .ok (.parse a.grammar (a.source operand) format (!a.isGiven .noDump) (a.value? .config))
  | .dump => .ok (.dump a.grammar)
  | .listGrammars => .ok .listGrammars

end Arguments

namespace Command

def ofWord (word : CommandWord) (written : List String) : Except UsageError Command := do
  let read ← Argument.readAll word.options none written
  let arguments ← read.foldlM (Arguments.add word) {}
  if arguments.isGiven .help then return .help else arguments.command word

def ofArguments : List String → Except UsageError Command
  | [] => .error .noCommand
  | first :: rest => match Argument.form first with
    | .plain => match CommandWord.all.find? fun word => word.name == first with
      | some word => ofWord word rest
      | none => if first = "help" then .ok .help else .error (.unknownCommand first)
    | .short 'V' _ => .ok .version
    | .short 'h' _ => .ok .help
    | .long name none =>
      if name = "version".toList then .ok .version
      else if name = "help".toList then .ok .help
      else .error (.unknownOption first)
    | _ => .error (.unknownOption first)

end Command

end FurthestMatch
