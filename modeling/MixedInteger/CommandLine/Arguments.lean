import MixedInteger.Decimal.Reader
import MixedInteger.Options

/-!
# Arguments

A command line names a command, gives it an input file, and sets options and
flags.  Arguments are taken one by one; an option without an attached value waits
for the next argument, and what waits is only examined when something else comes.
Two dashes end the options.
-/

namespace MixedInteger.CommandLine

/-- Why a command line is refused, or not carried out. -/
inductive Refusal where
  | displayHelp
  | missingSubcommand
  | invalidSubcommand
  | missingRequiredArgument
  | unknownArgument
  | argumentConflict
  | invalidValue
  | valueValidation
  | tooManyValues
  deriving Repr, DecidableEq

def Refusal.name : Refusal → String
  | .displayHelp => "DisplayHelp"
  | .missingSubcommand => "MissingSubcommand"
  | .invalidSubcommand => "InvalidSubcommand"
  | .missingRequiredArgument => "MissingRequiredArgument"
  | .unknownArgument => "UnknownArgument"
  | .argumentConflict => "ArgumentConflict"
  | .invalidValue => "InvalidValue"
  | .valueValidation => "ValueValidation"
  | .tooManyValues => "TooManyValues"

inductive Command where
  | information
  | solve
  deriving Repr, DecidableEq

def programName : String := "tableau_solver"

namespace Command

def all : List Command := [.information, .solve]

def shortName : Command → String
  | .information => "info"
  | .solve => "solve"

/-- The long name of a command, if it has one of its own. -/
def longName? : Command → Option String
  | .information => some "information"
  | .solve => none

/-- The name under which a command is listed. -/
def name (command : Command) : String :=
  command.longName?.getD command.shortName

/-- The command that goes by a name, short or long. -/
def ofName? (text : String) : Option Command :=
  all.find? fun command => command.name == text || command.shortName == text

end Command

/-- An argument that takes a value. -/
inductive Setting where
  | timeout
  | tolerance
  | nodeSelection
  | branching
  | output
  deriving Repr, DecidableEq

/-- An argument that takes no value. -/
inductive Flag where
  | full
  | roundingCuts
  | keepSolutions
  | allowCycles
  deriving Repr, DecidableEq

/-- What a name on the command line stands for. -/
inductive Parameter where
  | setting (setting : Setting)
  | flag (flag : Flag)
  | help

structure Choices where
  input : Option String
  output : Option String
  timeout : Option Nat
  tolerance : Option Float
  nodeSelection : Option NodeSelection
  branching : Option Branching
  flags : List Flag

def Choices.none : Choices := ⟨.none, .none, .none, .none, .none, .none, []⟩

def Command.longParameter? (command : Command) (name : String) : Option Parameter :=
  match command, name with
  | _, "help" => some .help
  | _, "output" => some (.setting .output)
  | .solve, "full" => some (.flag .full)
  | .solve, "timeout" => some (.setting .timeout)
  | .solve, "tolerance" => some (.setting .tolerance)
  | .solve, "mir-cuts" => some (.flag .roundingCuts)
  | .solve, "keep-solutions" => some (.flag .keepSolutions)
  | .solve, "allow-cycles" => some (.flag .allowCycles)
  | .solve, "node-selection" => some (.setting .nodeSelection)
  | .solve, "branching" => some (.setting .branching)
  | _, _ => none

def Command.shortParameter? (command : Command) (letter : Char) : Option Parameter :=
  match command, letter with
  | _, 'h' => some .help
  | _, 'o' => some (.setting .output)
  | .solve, 't' => some (.setting .timeout)
  | _, _ => none

/-- What waits to be examined: the input, or a setting with the value that it has
been given so far. -/
inductive Pending where
  | input (text : String)
  | setting (setting : Setting) (value : Option String)

def Choices.has (choices : Choices) : Setting → Bool
  | .timeout => choices.timeout.isSome
  | .tolerance => choices.tolerance.isSome
  | .nodeSelection => choices.nodeSelection.isSome
  | .branching => choices.branching.isSome
  | .output => choices.output.isSome

def orRefuse {β : Type} (refusal : Refusal) : Option β → Except Refusal β
  | some value => .ok value
  | none => .error refusal

/-- Reads the value of a setting. -/
def Choices.write (choices : Choices) (setting : Setting) (value : String) :
    Except Refusal Choices :=
  match setting with
  | .timeout => do
    let timeout ← orRefuse .valueValidation (Decimal.readWord? value.toList)
    .ok { choices with timeout := some timeout }
  | .tolerance => do
    let tolerance ← orRefuse .valueValidation (Decimal.readFloat? value.toList)
    .ok { choices with tolerance := some tolerance }
  | .nodeSelection => do
    let order ← orRefuse .invalidValue (NodeSelection.ofName? value)
    .ok { choices with nodeSelection := some order }
  | .branching => do
    let rule ← orRefuse .invalidValue (Branching.ofName? value)
    .ok { choices with branching := some rule }
  | .output =>
    if value == "" then .error .invalidValue
    else .ok { choices with output := some value }

/-- Sets a setting, which needs a value and may be set only once. -/
def Choices.set (choices : Choices) (setting : Setting) (value : Option String) :
    Except Refusal Choices := do
  let value ← orRefuse .invalidValue value
  if choices.has setting then .error .argumentConflict
  choices.write setting value

/-- Raises a flag, which may be raised only once. -/
def Choices.raise (choices : Choices) (flag : Flag) : Except Refusal Choices :=
  if choices.flags.contains flag then .error .argumentConflict
  else .ok { choices with flags := flag :: choices.flags }

/-- A command line part of which has been taken. -/
structure Progress where
  choices : Choices
  pending : Option Pending
  /-- Whether the pending setting still waits for a value. -/
  isWaiting : Bool
  /-- Whether the input has been given. -/
  hasInput : Bool
  /-- Whether two dashes have ended the options. -/
  isTrailing : Bool

namespace Progress

def start : Progress := ⟨.none, none, false, false, false⟩

/-- Examines what is pending. -/
def settle (progress : Progress) : Except Refusal Progress := do
  let choices ← match progress.pending with
    | none => .ok progress.choices
    | some (.input text) => .ok { progress.choices with input := some text }
    | some (.setting setting value) => progress.choices.set setting value
  .ok { progress with choices := choices, pending := none, isWaiting := false }

def takeFlag (progress : Progress) (flag : Flag) : Except Refusal Progress := do
  let progress ← progress.settle
  let choices ← progress.choices.raise flag
  .ok { progress with choices := choices }

/-- Takes a setting with an attached value, or one that waits for its value. -/
def takeSetting (progress : Progress) (setting : Setting) (attached : Option String) :
    Except Refusal Progress := do
  let progress ← progress.settle
  match attached with
  | some value =>
    let choices ← progress.choices.set setting (some value)
    .ok { progress with choices := choices }
  | none => .ok { progress with pending := some (.setting setting none), isWaiting := true }

/-- Refuses for help, unless what is pending is refused first. -/
def takeHelp (progress : Progress) : Except Refusal Progress := do
  let _ ← progress.settle
  .error .displayHelp

def takeLong (command : Command) (progress : Progress) (name : String)
    (attached : Option String) : Except Refusal Progress :=
  match command.longParameter? name, attached with
  | none, _ => .error .unknownArgument
  | some (.setting setting), attached => progress.takeSetting setting attached
  | some (.flag _), some _ => .error .tooManyValues
  | some .help, some _ => .error .tooManyValues
  | some (.flag flag), none => progress.takeFlag flag
  | some .help, none => progress.takeHelp

/-- The value attached to a letter, which an equals sign may introduce. -/
def attachedValue? : List Char → Option String
  | [] => none
  | '=' :: rest => some (String.ofList rest)
  | rest => some (String.ofList rest)

def takeLetters (command : Command) (progress : Progress) :
    List Char → Except Refusal Progress
  | [] => .ok progress
  | letter :: rest =>
    match command.shortParameter? letter with
    | none => .error .unknownArgument
    | some (.setting setting) => progress.takeSetting setting (attachedValue? rest)
    | some .help => progress.takeHelp
    | some (.flag flag) => do
      let progress ← progress.takeFlag flag
      takeLetters command progress rest

/-- Takes an argument without a name: the value that is waited for, or else the
input. -/
def takeValue (progress : Progress) (text : String) : Except Refusal Progress :=
  match progress.isTrailing, progress.isWaiting, progress.pending with
  | false, true, some (.setting setting _) =>
    .ok { progress with pending := some (.setting setting (some text)), isWaiting := false }
  | _, _, _ =>
    if progress.hasInput then .error .unknownArgument
    else do
      let progress ← progress.settle
      .ok { progress with pending := some (.input text), hasInput := true }

def take (command : Command) (progress : Progress) (argument : String) :
    Except Refusal Progress :=
  if progress.isTrailing then progress.takeValue argument
  else
    match argument.toList with
    | ['-', '-'] => .ok { progress with isTrailing := true }
    | '-' :: '-' :: long =>
      match long.span fun c => c != '=' with
      | (name, '=' :: value) =>
        takeLong command progress (String.ofList name) (some (String.ofList value))
      | (name, _) => takeLong command progress (String.ofList name) none
    | '-' :: letter :: letters => takeLetters command progress (letter :: letters)
    | _ => progress.takeValue argument

end Progress

def Command.readChoices (command : Command) (arguments : List String) :
    Except Refusal Choices := do
  let progress ← arguments.foldlM (Progress.take command) Progress.start
  let progress ← progress.settle
  .ok progress.choices

/-- A command with its input and everything else it was told. -/
structure Invocation where
  command : Command
  input : String
  choices : Choices

def Command.invoke (command : Command) (arguments : List String) :
    Except Refusal Invocation := do
  let choices ← command.readChoices arguments
  let input ← orRefuse .missingRequiredArgument choices.input
  .ok ⟨command, input, choices⟩

def helpName : String := "help"

/-- Help on the command that a list of names leads to.  Only the program itself
has commands below it. -/
def helpOn : List String → Refusal
  | [] => .displayHelp
  | [name] =>
    if name == helpName || (Command.ofName? name).isSome then .displayHelp
    else .invalidSubcommand
  | _ => .invalidSubcommand

/-- Two dashes in place of a command: a command's name after them is no command
any more. -/
def afterDashes : List String → Refusal
  | [] => .missingSubcommand
  | name :: _ =>
    if name == helpName || (Command.ofName? name).isSome then .unknownArgument
    else .invalidSubcommand

def read : List String → Except Refusal Invocation
  | [] => .error .missingSubcommand
  | first :: rest =>
    if first == helpName then .error (helpOn rest)
    else
      match Command.ofName? first with
      | some command => command.invoke rest
      | none =>
        match first.toList with
        | ['-', '-'] => .error (afterDashes rest)
        | '-' :: '-' :: long =>
          .error (if long == helpName.toList then .displayHelp
            else if (helpName ++ "=").toList.isPrefixOf long then .tooManyValues
            else .unknownArgument)
        | '-' :: letter :: _ => .error (if letter == 'h' then .displayHelp else .unknownArgument)
        | _ => .error .invalidSubcommand

end MixedInteger.CommandLine
