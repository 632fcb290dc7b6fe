import MixedInteger.PivotHistory

/-!
# Faults

Everything that can go wrong, as a cause with the contexts in which it arose.
The wording lives here alone: a fault is reported as its contexts, outermost
first, followed by its cause.
-/

namespace MixedInteger

inductive Phase where
  | one
  | two
  deriving Repr, DecidableEq

def Phase.number : Phase → Nat
  | .one => 1
  | .two => 2

inductive Cause where
  /-- A text is not a JSON text. -/
  | notJson
  /-- A JSON value does not describe solver options. -/
  | notOptions
  | fieldMissing (name : String)
  | valueMissing
  /-- A value of one kind stands where another kind is expected. -/
  | wrongKind (found expected : String)
  | emptyNumber
  | notNumber
  | notNames (name : String)
  | notFlags (name : String)
  | notPriority (text : String)
  | notNaturalPriority (text : String)
  | wrongPriority
  | unknownStrategy
  | severalObjectives
  | wrongObjective
  | unknownDirection (text : String)
  | wrongVariable (name : String)
  | variableNotInModel (index : Nat)
  | constraintNotInModel (slack : Nat)
  | termNotInModel (slack index : Nat)
  | variableNotInTableau (index : Nat)
  | constraintNotInTableau (slack : Nat)
  | variableNotRegistered (index : Nat)
  | ownSlack (slack : Nat)
  | cannotEnter (index : Nat)
  | cannotLeave (index : Nat)
  | cycle (phase : Phase) (repetition : Cycle)
  | nothingToBranchOn
  /-- A loop used up the number of steps it was given. -/
  | outOfSteps
  | wrongDimensions
  | wrongRowLength (row length width : Nat)
  | basicNotMapped (index row : Nat)
  | nonBasicNotMapped (index column : Nat)
  | unplaced (index : Nat)
  | variableMissing (index : Nat)
  | constraintMissing (slack : Nat)
  | noSuchFile
  deriving Repr, DecidableEq

def Cause.message : Cause → String
  | .notJson => "the text is not valid JSON"
  | .notOptions => "the value does not describe solver options"
  | .fieldMissing name => s!"field `{name}` not found"
  | .valueMissing => "field not found"
  | .wrongKind found expected => s!"field is {found}, where {expected} expected"
  | .emptyNumber => "cannot parse float from empty string"
  | .notNumber => "invalid float literal"
  | .notNames name => s!"field `{name}` should list names"
  | .notFlags name => s!"field `{name}` is not an object or a list"
  | .notPriority text => s!"`{text}` is not a priority"
  | .notNaturalPriority text => s!"priority `{text}` is not a non-negative integer"
  | .wrongPriority => "priority should be a number or a level name"
  | .unknownStrategy => "Matching variant not found"
  | .severalObjectives => "optimising several attributes at once is not supported"
  | .wrongObjective => "field `optimize` should name an attribute"
  | .unknownDirection text => s!"opType `{text}` is neither max nor min"
  | .wrongVariable name => s!"variable `{name}` should map attributes to coefficients"
  | .variableNotInModel index => s!"variable {index} is not part of the model"
  | .constraintNotInModel slack => s!"constraint {slack} is not part of the model"
  | .termNotInModel slack index =>
    s!"constraint {slack} refers to variable {index} which is not part of the model"
  | .variableNotInTableau index => s!"variable {index} is not part of the tableau"
  | .constraintNotInTableau slack => s!"constraint {slack} is not part of the tableau"
  | .variableNotRegistered index => s!"variable {index} is not registered"
  | .ownSlack slack =>
    s!"cannot change the coefficient of a constraint against its own slack {slack}"
  | .cannotEnter index => s!"variable {index} cannot be brought into the basis"
  | .cannotLeave index => s!"variable {index} cannot be taken out of the basis"
  | .cycle phase repetition => s!"cycle in phase {phase.number}: {repetition.message}"
  | .nothingToBranchOn => "no fractional variable to branch on"
  | .outOfSteps => "the step limit was reached"
  | .wrongDimensions => "tableau dimensions are inconsistent"
  | .wrongRowLength row length width => s!"row {row} has {length} columns instead of {width}"
  | .basicNotMapped index row => s!"basic variable {index} of row {row} is not mapped back"
  | .nonBasicNotMapped index column =>
    s!"non-basic variable {index} of column {column} is not mapped back"
  | .unplaced index => s!"variable {index} is neither basic nor non-basic"
  | .variableMissing index => s!"variable {index} is missing from the tableau"
  | .constraintMissing slack => s!"constraint {slack} is missing from the tableau"
  | .noSuchFile => "No such file or directory (os error 2)"

/-- What was being done when something went wrong. -/
inductive Context where
  | readingField (name : String)
  | readingJson
  | readingOptions
  | readingConstraints
  | readingVariables
  | weightOf (name : String)
  | priorityOf (name : String)
  | costOf (name : String)
  | coefficientOf (name constraint : String)
  | buildingTableau
  | solving
  | readingParameter (name : String)
  | readingFile (name : String)
  /-- The name is given as it is shown, in quotes. -/
  | creatingFile (shown : String)
  deriving Repr, DecidableEq

def Context.message : Context → String
  | .readingField name => s!"field `{name}`"
  | .readingJson => "parsing the model as JSON"
  | .readingOptions => "reading the options"
  | .readingConstraints => "reading constraints"
  | .readingVariables => "reading variables"
  | .weightOf name => s!"weight of `{name}`"
  | .priorityOf name => s!"priority of `{name}`"
  | .costOf name => s!"cost of `{name}`"
  | .coefficientOf name constraint => s!"coefficient of `{name}` in `{constraint}`"
  | .buildingTableau => "building the tableau of the model"
  | .solving => "solving the problem"
  | .readingParameter name => s!"Reading parameter {name}."
  | .readingFile name => s!"could not read file `{name}`"
  | .creatingFile shown => s!"could not create file {shown}"

/-- A cause with its contexts, outermost first. -/
structure Fault where
  contexts : List Context
  cause : Cause
  deriving Repr, DecidableEq

namespace Fault

instance : Coe Cause Fault := ⟨fun cause => ⟨[], cause⟩⟩

/-- The same fault seen from one context further out. -/
def within (context : Context) (fault : Fault) : Fault :=
  ⟨context :: fault.contexts, fault.cause⟩

def contextMessage (fault : Fault) : String :=
  ": ".intercalate (fault.contexts.map Context.message)

def message (fault : Fault) : String :=
  ": ".intercalate (fault.contexts.map Context.message ++ [fault.cause.message])

end Fault

/-- Fails for a cause, with the state as it is. -/
def raise {σ β : Type} (cause : Cause) : EStateM Fault σ β :=
  throw (cause : Fault)

/-- Notes the context of the faults of a computation. -/
def inContext {β : Type} (context : Context) (computation : Except Fault β) : Except Fault β :=
  computation.mapError (Fault.within context)

end MixedInteger
