import CorpusFacts.CommandLine.Option
import CorpusFacts.Text.Digits

/-!
# Reading the command line

Arguments are read from left to right. An option that needs a value takes it from its own argument
or from the next one, and a value is checked only when the next argument has been understood, or at
the end. Behind two hyphens every argument is positional.
-/

namespace CorpusFacts.CommandLine

/-- Why a command line asks for no run. -/
inductive Usage where
  /-- Nothing is asked for. -/
  | nothingAsked
  /-- Help is asked for. -/
  | help
  /-- The version is asked for. -/
  | version
  /-- There is no such command. -/
  | unknownCommand
  /-- There is no such option, or there are too many arguments. -/
  | unknownArgument
  /-- The corpus is missing. -/
  | missingArgument
  /-- Options exclude each other, or an option is repeated. -/
  | conflict
  /-- The value of an option is missing or empty. -/
  | missingValue
  /-- The value of an option is no number. -/
  | malformedValue
  /-- An option without a value is given one. -/
  | unexpectedValue
  deriving DecidableEq, Repr

namespace Usage

/-- The exit code: asking for help or the version is no error. -/
def exitCode : Usage → Nat
  | help | version => 0
  | _ => 2

end Usage

/-- What the next argument has to settle. -/
inductive Pending where
  /-- Nothing. -/
  | nothing
  /-- The value of an option. -/
  | value (option : CommandOption)
  /-- Whether an option can have its value. -/
  | option (option : CommandOption) (value : String)
  /-- Whether the corpus can be this one. -/
  | corpus (value : String)
  deriving DecidableEq, Repr

/-- The arguments of a command read so far. -/
structure Arguments where
  /-- The options given, last one first, each with its value. -/
  given : List (CommandOption × String)
  /-- The corpus. -/
  corpus : Option String
  /-- What the next argument has to settle. -/
  pending : Pending
  /-- Whether only positional arguments follow. -/
  isTrailing : Bool
  deriving DecidableEq, Repr

/-- The number that the value of an option spells: digits, perhaps after a plus sign. -/
def number? (value : String) : Option Nat :=
  match value.toList with
  | '+' :: digits => Text.word? 10 digits
  | digits => Text.word? 10 digits

namespace Arguments

/-- No argument read. -/
def start : Arguments := ⟨[], none, .nothing, false⟩

/-- Whether an option is given. -/
def has (arguments : Arguments) (option : CommandOption) : Bool :=
  arguments.given.any (·.1 == option)

/-- The values given for an option, in order. -/
def valuesOf (arguments : Arguments) (option : CommandOption) : List String :=
  ((arguments.given.filter (·.1 == option)).map (·.2)).reverse

/-- The value given for an option. -/
def valueOf? (arguments : Arguments) (option : CommandOption) : Option String :=
  (arguments.valuesOf option).head?

/-- Whether an option accepts a value. -/
def checkValue (option : CommandOption) (value : String) : Except Usage Unit :=
  match option.value with
  | .path => if value.isEmpty then .error .missingValue else .ok ()
  | .number => if (number? value).isSome then .ok () else .error .malformedValue
  | _ => .ok ()

/-- One more option with its value. -/
def accept (arguments : Arguments) (option : CommandOption) (value : String) :
    Except Usage Arguments := do
  if option == .help then .error .help
  if arguments.has option && option.value != .texts then .error .conflict
  checkValue option value
  return { arguments with given := (option, value) :: arguments.given, pending := .nothing }

/-- What was left to settle, settled. -/
def settle (arguments : Arguments) : Except Usage Arguments :=
  match arguments.pending with
  | .nothing => .ok arguments
  | .value _ => .error .missingValue
  | .option option value => arguments.accept option value
  | .corpus value =>
    if value.isEmpty then .error .missingValue
    else .ok { arguments with corpus := some value, pending := .nothing }

/-- An option that may come with a value of its own. -/
def readOption (arguments : Arguments) (option : CommandOption) (value : Option String) :
    Except Usage Arguments := do
  match option.value, value with
  | .absent, some _ => .error .unexpectedValue
  | .absent, none => (← arguments.settle).accept option ""
  | _, some value => (← arguments.settle).accept option value
  | _, none => return { ← arguments.settle with pending := .value option }

/-- An argument that starts with two hyphens, without them. -/
def readLong (arguments : Arguments) (command : Command) (text : List Char) :
    Except Usage Arguments :=
  let (name, rest) := text.span (· != '=')
  let value :=
    match rest with
    | [] => none
    | _ :: value => some (String.ofList value)
  match command.longOption? (String.ofList name) with
  | none => .error .unknownArgument
  | some option => arguments.readOption option value

/-- An argument that starts with one hyphen, without it: letters of options, up to one that takes
the rest as its value. -/
def readShort (arguments : Arguments) (command : Command) : List Char → Except Usage Arguments
  | [] => .ok arguments
  | letter :: rest =>
    match command.shortOption? letter with
    | none => .error .unknownArgument
    | some option =>
      if option.value == .absent then do
        (← arguments.readOption option none).readShort command rest
      else
        match rest with
        | [] => arguments.readOption option none
        | '=' :: value => arguments.readOption option (some (String.ofList value))
        | value => arguments.readOption option (some (String.ofList value))

/-- Whether the corpus has been read. -/
def hasCorpus (arguments : Arguments) : Bool :=
  match arguments.pending with
  | .corpus _ => true
  | _ => arguments.corpus.isSome

/-- A positional argument. -/
def readPositional (arguments : Arguments) (value : String) : Except Usage Arguments := do
  if arguments.hasCorpus then .error .unknownArgument
  return { ← arguments.settle with pending := .corpus value }

/-- An argument that is no option. -/
def readPlain (arguments : Arguments) (value : String) : Except Usage Arguments :=
  match arguments.pending with
  | .value option => .ok { arguments with pending := .option option value }
  | _ => arguments.readPositional value

/-- One more argument. -/
def read (arguments : Arguments) (command : Command) (argument : String) :
    Except Usage Arguments :=
  if arguments.isTrailing then arguments.readPositional argument
  else
    match argument.toList with
    | ['-', '-'] => .ok { arguments with isTrailing := true }
    | '-' :: '-' :: text => arguments.readLong command text
    | ['-'] => arguments.readPlain argument
    | '-' :: text => arguments.readShort command text
    | _ => arguments.readPlain argument

/-- The end of the arguments. -/
def finish (arguments : Arguments) : Except Usage Arguments := do
  let arguments ← arguments.settle
  if arguments.has .verbose && arguments.has .quiet then .error .conflict
  if arguments.corpus.isNone then .error .missingArgument
  return arguments

end Arguments

/-- What the program is asked to do, and how. -/
structure Request where
  /-- The command. -/
  command : Command
  /-- Its arguments. -/
  arguments : Arguments
  deriving DecidableEq, Repr

/-- What follows the word `help`: names of commands, none of which has commands of its own. -/
def helpOn : List String → Usage
  | [] => .help
  | [name] => if name == "help" || (Command.ofName? name).isSome then .help else .unknownCommand
  | _ => .unknownCommand

/-- What a letter behind one hyphen asks for where a command is expected. -/
def leadingShort : List Char → Usage
  | 'h' :: _ => .help
  | 'V' :: _ => .version
  | _ => .unknownArgument

/-- What two hyphens and a text ask for where a command is expected. -/
def leadingLong (text : List Char) : Usage :=
  let (name, rest) := text.span (· != '=')
  if name != "help".toList && name != "version".toList then .unknownArgument
  else if !rest.isEmpty then .unexpectedValue
  else if name == "help".toList then .help
  else .version

/-- What an argument behind two hyphens asks for where a command is expected. -/
def escapedCommand : List String → Usage
  | [] => .nothingAsked
  | name :: _ =>
    if name == "help" || (Command.ofName? name).isSome then .unknownArgument else .unknownCommand

/-- What a command line asks for. -/
def request : List String → Except Usage Request
  | [] => .error .nothingAsked
  | first :: rest =>
    match Command.ofName? first with
    | some command => do
      let arguments ← rest.foldlM (fun arguments argument => arguments.read command argument)
        Arguments.start
      return ⟨command, ← arguments.finish⟩
    | none =>
      if first == "help" then .error (helpOn rest)
      else
        match first.toList with
        | ['-', '-'] => .error (escapedCommand rest)
        | '-' :: '-' :: text => .error (leadingLong text)
        | ['-'] => .error .unknownCommand
        | '-' :: text => .error (leadingShort text)
        | _ => .error .unknownCommand

end CorpusFacts.CommandLine
