import MixedInteger.Json.Fields
import MixedInteger.Json.Reader
import MixedInteger.Model.Edit
import MixedInteger.Options.Json

/-!
# Problem descriptions

A description is a JSON object.  `optimize` names the attribute to optimise and
`opType` the direction; `constraints` bounds attributes by `min`, `max` or
`equal`, softly if a `weight` or a `priority` is given; `variables` maps each
variable to its attributes; `ints`, `binaries` and `unrestricted` flag variables.
-/

namespace MixedInteger.Model

def readObjective (json : Json) : Except Fault String :=
  match json.field "optimize" with
  | .string name => .ok name
  | .object _ => .error Cause.severalObjectives
  | .null => .error (Cause.fieldMissing "optimize")
  | _ => .error Cause.wrongObjective

/-- The priority of a soft constraint: a number, a level name, or the first level
if it is not given. -/
def readPriority : Json → Except Fault Priority
  | .null => .ok ⟨1⟩
  | .number value =>
    match value.toNat? with
    | some level => .ok ⟨level⟩
    | none => .error (Cause.notNaturalPriority value.write)
  | .string text => Priority.ofText text
  | _ => .error Cause.wrongPriority

/-- The weight of a soft constraint, one if it is not given. -/
def readWeight : Json → Except Fault Float
  | .null => .ok 1.0
  | value => value.asNumber

def wholeTimeout (timeout : Float) : Nat :=
  (if 0.0 < timeout then timeout else 0.0).toUInt64.toNat

/-- The options of a description.  A tolerance and a time limit outside the
options win. -/
def readOptions (json : Json) : Except Fault (Options Float) := do
  let options ← match json.field "options" with
    | .null => pure Options.standard
    | value => inContext .readingOptions (Options.ofJson value)
  let tolerance ← json.optionalNumberField "tolerance"
  let timeout ← json.optionalNumberField "timeout"
  pure { options with
    tolerance := tolerance.getD options.tolerance
    timeout := match timeout with
      | some timeout => some (wholeTimeout timeout)
      | none => options.timeout }

/-- Whether the model minimises. -/
def readDirection (json : Json) : Except Fault Bool :=
  match json.textField "opType" with
  | .ok "max" => .ok false
  | .ok "min" => .ok true
  | .ok other => .error (Cause.unknownDirection other)
  | .error _ => .ok true

/-- The inequalities of a named constraint, by name. -/
structure Bounds where
  lower : OrderedMap String ConstraintRef
  upper : OrderedMap String ConstraintRef

/-- Runs a computation that does not touch the model. -/
def check {β : Type} (computation : Except Fault β) : Action Float β :=
  match computation with
  | .ok result => pure result
  | .error fault => throw fault

def relaxIf (relaxation : Option (Float × Priority)) (reference : ConstraintRef) :
    Action Float Unit := do
  match relaxation with
  | some (weight, priority) =>
    let _ ← relax reference weight priority
    pure ()
  | none => pure ()

def addLower (name : String) (relaxation : Option (Float × Priority)) (bounds : Bounds) :
    Option Float → Action Float Bounds
  | none => pure bounds
  | some rhs => do
    let reference ← atLeast rhs
    relaxIf relaxation reference
    pure { bounds with lower := bounds.lower.insert name reference }

def addUpper (name : String) (relaxation : Option (Float × Priority)) (bounds : Bounds) :
    Option Float → Action Float Bounds
  | none => pure bounds
  | some rhs => do
    let reference ← atMost rhs
    relaxIf relaxation reference
    pure { bounds with upper := bounds.upper.insert name reference }

def addEquality (name : String) (relaxation : Option (Float × Priority)) (bounds : Bounds)
    (rhs : Float) : Action Float Bounds := do
  let upper ← addInequality rhs true
  let lower ← addInequality rhs false
  relaxIf relaxation (.equality upper lower)
  pure
    { lower := bounds.lower.insert name (.inequality lower)
      upper := bounds.upper.insert name (.inequality upper) }

/-- Adds the inequalities of a named constraint. -/
def addNamedConstraint (bounds : Bounds) (name : String) (json : Json) :
    Action Float Bounds := do
  let isSoft := !(json.field "weight").isNull || !(json.field "priority").isNull
  let weight ← check (inContext (.weightOf name) (readWeight (json.field "weight")))
  let priority ← check (inContext (.priorityOf name) (readPriority (json.field "priority")))
  let relaxation := if isSoft then some (weight, priority) else none
  match ← check (json.optionalNumberField "equal") with
  | some rhs => addEquality name relaxation bounds rhs
  | none =>
    let lower ← check (json.optionalNumberField "min")
    let bounds ← addLower name relaxation bounds lower
    let upper ← check (json.optionalNumberField "max")
    addUpper name relaxation bounds upper

structure Flags where
  integers : List String
  binaries : List String
  free : List String

/-- Adds the term of a variable to the inequality of a name, if there is one. -/
def addNamedTerm (bounds : OrderedMap String ConstraintRef) (name : String)
    (coefficient : Float) (index : Nat) : Action Float Unit := do
  match bounds.get? name with
  | some reference => addTerm reference coefficient index
  | none => pure ()

/-- Adds the terms that an attribute of a variable stands for. -/
def addAttribute (objective : String) (bounds : Bounds) (name : String) (index : Nat)
    (constraint : String) (json : Json) : Action Float Unit := do
  if constraint != objective then
    let coefficient ← check (inContext (.coefficientOf name constraint) json.asNumber)
    addNamedTerm bounds.lower constraint coefficient index
    addNamedTerm bounds.upper constraint coefficient index

/-- The cost of a variable, zero if it is not given. -/
def readCost (objective name : String) (json : Json) : Except Fault Float :=
  match json.field objective with
  | .null => .ok 0.0
  | value => inContext (.costOf name) value.asNumber

/-- Adds a variable with all its terms.  A binary variable is bounded by one. -/
def addNamedVariable (objective : String) (bounds : Bounds) (flags : Flags) (name : String)
    (json : Json) : Action Float Unit := do
  let cost ← check (readCost objective name json)
  let isBinary := flags.binaries.contains name
  let index ← addVariable
    { cost := cost
      name := some name
      isInteger := isBinary || flags.integers.contains name
      isFree := flags.free.contains name
      priority := .required }
  if isBinary then
    let reference ← atMost 1.0
    addTerm reference 1.0 index
  match json with
  | .object attributes =>
    attributes.forM fun (constraint, value) =>
      addAttribute objective bounds name index constraint value
  | _ => raise (.wrongVariable name)

def fill (objective : String) (json : Json) : Action Float Unit := do
  let constraints ← check (inContext .readingConstraints (json.objectField "constraints"))
  let bounds ← constraints.foldlM
    (fun bounds (name, value) => addNamedConstraint bounds name value) (Bounds.mk [] [])
  let integers ← check (json.flagsField "ints")
  let binaries ← check (json.flagsField "binaries")
  let free ← check (json.flagsField "unrestricted")
  let declarations ← check (inContext .readingVariables (json.objectField "variables"))
  declarations.forM fun (name, value) =>
    addNamedVariable objective bounds ⟨integers, binaries, free⟩ name value

def ofJson (json : Json) : Except Fault (Model Float) := do
  let objective ← readObjective json
  let options ← readOptions json
  let minimises ← readDirection json
  let start := (empty standardPrecision options).setDirection minimises
  match fill objective json start with
  | .ok _ model => .ok model
  | .error fault _ => .error fault

def ofText (text : String) : Except Fault (Model Float) := do
  match Json.parse? text with
  | some json => ofJson json
  | none => .error (Fault.within .readingJson Cause.notJson)

end MixedInteger.Model
