import MixedInteger.CommandLine.Arguments
import MixedInteger.Model.Description
import MixedInteger.Model.Report
import MixedInteger.Model.Solve
import MixedInteger.Solution.Json
import MixedInteger.Text.Quoted

/-!
# Running a command

A command reads a problem description from a file or from its input, and prints
its result or writes it to a file.  The files are those of one folder, given as a
map from names to contents.
-/

namespace MixedInteger.CommandLine

/-- What a command works on: the files of a folder, and the text of its input. -/
structure Desk where
  files : OrderedMap String String
  input : String

structure Outcome where
  printed : String
  files : OrderedMap String String

/-- Why a command did not run to its end. -/
inductive Failure where
  | refused (refusal : Refusal)
  | failed (fault : Fault)

/-- The name of a file within its folder, without steps that stay in the folder. -/
def plainName (name : String) : List Char :=
  match name.toList with
  | '.' :: '/' :: rest => rest.dropWhile fun c => c == '/'
  | characters => characters

/-- The text of a problem description; a dash stands for the input. -/
def Desk.read (desk : Desk) (source : String) : Except Fault String :=
  if source == "-" then .ok desk.input
  else
    match desk.files.get? (String.ofList (plainName source)) with
    | some content => .ok content
    | none => .error (Fault.within (.readingFile source) Cause.noSuchFile)

/-- Writes a file.  There are no folders inside the folder. -/
def Desk.write (desk : Desk) (target content : String) :
    Except Fault (OrderedMap String String) :=
  let name := plainName target
  if name.isEmpty || name.contains '/' then
    .error (Fault.within (.creatingFile (Text.showQuoted target)) Cause.noSuchFile)
  else .ok (desk.files.insert (String.ofList name) content)

/-- The options of a description with those of the command line on top. -/
def Choices.override (choices : Choices) (options : Options Float) : Options Float where
  timeout := choices.timeout.or options.timeout
  tolerance := choices.tolerance.getD options.tolerance
  usesRoundingCuts := choices.flags.contains .roundingCuts || options.usesRoundingCuts
  stopsOnCycles := !choices.flags.contains .allowCycles && options.stopsOnCycles
  keepsSolutions := choices.flags.contains .keepSolutions || options.keepsSolutions
  nodeSelection := choices.nodeSelection.getD options.nodeSelection
  branching := choices.branching.getD options.branching

def informationText (model : Model Float) : String :=
  s!"Problem description of {model.indices.length} variable(s).\n" ++ model.report

def solutionText (effort : Effort) (choices : Choices) (model : Model Float) :
    Except Fault String :=
  let model := { model with options := choices.override model.options }
  match Model.within .solving (Model.solve effort) model with
  | .ok solution _ =>
    .ok (if choices.flags.contains .full then solution.fullJson.pretty else solution.text)
  | .error fault _ => .error fault

def Invocation.result (effort : Effort) (invocation : Invocation) (desk : Desk) :
    Except Fault String := do
  let model ← inContext (.readingParameter "FILE") do
    let text ← desk.read invocation.input
    Model.ofText text
  match invocation.command with
  | .information => .ok (informationText model)
  | .solve => solutionText effort invocation.choices model

def Invocation.run (effort : Effort) (invocation : Invocation) (desk : Desk) :
    Except Fault Outcome := do
  let text ← invocation.result effort desk
  match invocation.choices.output with
  | none => .ok ⟨text ++ "\n", desk.files⟩
  | some target =>
    let files ← desk.write target (text ++ "\n")
    .ok ⟨"", files⟩

/-- Carries out a command line. -/
def execute (effort : Effort) (arguments : List String) (desk : Desk) :
    Except Failure Outcome :=
  match read arguments with
  | .error refusal => .error (.refused refusal)
  | .ok invocation => (invocation.run effort desk).mapError .failed

inductive OutputKind where
  | json
  | text
  deriving Repr, DecidableEq

def OutputKind.name : OutputKind → String
  | .json => "JSON object"
  | .text => "text"

def showName? : Option String → String
  | none => "None"
  | some name => s!"Some({Text.showQuoted name})"

def overviewLine (kind shortName : String) (longName : Option String) : String :=
  s!"{kind} \x7b name_short: {Text.showQuoted shortName}, " ++
    s!"name_long: {showName? longName} \x7d"

def programOverview : String :=
  overviewLine "Group" programName none

def Command.overview (command : Command) : String :=
  overviewLine "Command" command.shortName command.longName?

end MixedInteger.CommandLine
