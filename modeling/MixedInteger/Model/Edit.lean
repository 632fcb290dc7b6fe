import MixedInteger.Model
import MixedInteger.Tableau.Edit

/-!
# Editing a model

Variables and constraints can be added, changed and removed at any time.  A
constraint becomes soft when a relaxation variable takes up its violation; as long
as the constraint names the variable, its cost penalises the violation, whichever
way the model is optimised.
-/

namespace MixedInteger.Model

variable {α : Type} [Scalar α]

/-- The relaxation variables of the constraints, each once. -/
def relaxations (model : Model α) : List Nat :=
  (model.constraints.values.filterMap Constraint.relaxation).eraseDups

/-- Turns the costs of all relaxation variables around. -/
def negateRelaxationCosts (model : Model α) : Model α :=
  { model with
    tableau := model.relaxations.foldl
      (fun t index => t.modifyVariable index fun data => { data with cost := -data.cost })
      model.tableau }

/-- Changes the direction of a model.  The tableau is built anew by the next
solve. -/
def setDirection (model : Model α) (minimises : Bool) : Model α :=
  if model.minimises == minimises then model
  else
    negateRelaxationCosts
      { model with
        tableau := model.tableau.discardSearch
        minimises := minimises
        isLoaded := false }

def minimise (model : Model α) : Model α :=
  model.setDirection true

def maximise (model : Model α) : Model α :=
  model.setDirection false

/-- What is said about a new variable. -/
structure Declaration (α : Type) where
  cost : α
  /-- Without a name the variable is named after its index. -/
  name : Option String
  isInteger : Bool
  isFree : Bool
  priority : Priority

/-- Adds a variable, and returns its index. -/
def addVariable (declaration : Declaration α) : Action α Nat := do
  discardSearch
  let model ← get
  let kind := if declaration.isInteger then VariableKind.integer else VariableKind.continuous
  let (index, tableau) := model.tableau.register fun index =>
    Variable.declare (declaration.name.getD s!"v{index}") declaration.cost index
      declaration.priority kind declaration.isFree
  set { model with
    tableau := tableau
    indices := model.indices ++ [index]
    integers := if declaration.isInteger then model.integers ++ [index] else model.integers }
  if model.isLoaded then onTableau (Tableau.addVariable index model.minimises)
  pure index

/-- Adds an inequality without terms, and returns its slack. -/
def addInequality (rhs : α) (isUpperBound : Bool) : Action α Nat := do
  discardSearch
  let model ← get
  let (slack, tableau) := model.tableau.registerSlack
  set { model with
    tableau := tableau
    constraints := model.constraints.insert slack (Constraint.bound slack rhs isUpperBound) }
  if model.isLoaded then onTableau (Tableau.addConstraint slack isUpperBound rhs [])
  pure slack

def atMost (rhs : α) : Action α ConstraintRef := do
  let slack ← addInequality rhs true
  pure (.inequality slack)

def atLeast (rhs : α) : Action α ConstraintRef := do
  let slack ← addInequality rhs false
  pure (.inequality slack)

def equal (rhs : α) : Action α ConstraintRef := do
  let upper ← addInequality rhs true
  let lower ← addInequality rhs false
  pure (.equality upper lower)

def inequality (slack : Nat) : Action α (Constraint α) := do
  match (← get).constraint? slack with
  | some constraint => pure constraint
  | none => raise (.constraintNotInModel slack)

def requireVariable (index : Nat) : Action α Unit := do
  if !(← get).indices.contains index then raise (.variableNotInModel index)

def writeConstraint (slack : Nat) (constraint : Constraint α) : Action α Unit :=
  modify fun model =>
    { model with constraints := model.constraints.modify slack fun _ => constraint }

def setInequalityCoefficient (slack : Nat) (coefficient : α) (index : Nat) :
    Action α Unit := do
  discardSearch
  let constraint ← inequality slack
  let difference := match constraint.coefficientOf? index with
    | some present => coefficient - present
    | none => coefficient
  writeConstraint slack (constraint.setCoefficient index coefficient)
  if (← get).isLoaded && difference != 0 then
    onTableau (Tableau.changeCoefficient slack constraint.isUpperBound index difference)

/-- Adds a multiple of a variable to a constraint. -/
def addTerm (reference : ConstraintRef) (coefficient : α) (index : Nat) : Action α Unit := do
  requireVariable index
  reference.slacks.forM fun slack => do
    let constraint ← inequality slack
    let present := (constraint.coefficientOf? index).getD 0
    setInequalityCoefficient slack (present + coefficient) index

def setCoefficient (reference : ConstraintRef) (coefficient : α) (index : Nat) :
    Action α Unit := do
  requireVariable index
  reference.slacks.forM fun slack => setInequalityCoefficient slack coefficient index

def setInequalityRhs (slack : Nat) (rhs : α) : Action α Unit := do
  discardSearch
  let constraint ← inequality slack
  let difference := rhs - constraint.rhs
  writeConstraint slack { constraint with rhs := rhs }
  if (← get).isLoaded && difference != 0 then
    onTableau (Tableau.changeRhs slack constraint.isUpperBound difference)

def setRhs (reference : ConstraintRef) (rhs : α) : Action α Unit :=
  reference.slacks.forM fun slack => setInequalityRhs slack rhs

/-- Lets a relaxation variable take up the violation of one inequality. -/
def relaxInequality (relaxation slack : Nat) : Action α Unit := do
  let constraint ← inequality slack
  setInequalityCoefficient slack (if constraint.isUpperBound then -1 else 1) relaxation
  modify fun model =>
    { model with
      constraints := model.constraints.modify slack fun constraint =>
        { constraint with relaxation := some relaxation } }

/-- Makes a constraint soft: a relaxation variable with the given cost and
priority takes up its violation.  A required constraint stays as it is. -/
def relax (reference : ConstraintRef) (weight : α) (priority : Priority) :
    Action α (Option Nat) := do
  if priority.isRequired then pure none
  else
    let model ← get
    set { model with nextRelaxation := model.nextRelaxation + 1 }
    let relaxation ← addVariable
      { cost := if model.minimises then weight else -weight
        name := some s!"r{model.nextRelaxation}"
        isInteger := false
        isFree := false
        priority := priority }
    reference.slacks.forM (relaxInequality relaxation)
    pure (some relaxation)

/-- Removes a variable from the model and from all its constraints. -/
def removeVariable (index : Nat) : Action α Unit := do
  discardSearch
  requireVariable index
  modify fun model =>
    { model with
      indices := model.indices.erase index
      integers := model.integers.filter fun integer => integer != index
      constraints := model.constraints.map fun entry => (entry.1, entry.2.forget index) }
  if (← get).isLoaded then onTableau (Tableau.removeVariable index)
  else modifyTableau fun t => t.release index

def removeInequality (slack : Nat) : Action α Unit := do
  discardSearch
  let constraint ← inequality slack
  modify fun model => { model with constraints := model.constraints.erase slack }
  if (← get).isLoaded then onTableau (Tableau.removeConstraint slack)
  else modifyTableau fun t => t.release slack
  match constraint.relaxation with
  | some relaxation =>
    if (← get).indices.contains relaxation then removeVariable relaxation
  | none => pure ()

/-- Removes a constraint with its relaxation variable. -/
def removeConstraint (reference : ConstraintRef) : Action α Unit :=
  reference.slacks.forM removeInequality

def setCost (cost : α) (index : Nat) : Action α Unit := do
  requireVariable index
  discardSearch
  let model ← get
  match model.tableau.lookup? index with
  | none => raise (.variableNotInModel index)
  | some data =>
    let difference := cost - data.cost
    modifyTableau fun t => t.modifyVariable index fun data => { data with cost := cost }
    if model.isLoaded && difference != 0 then
      onTableau (Tableau.changeCost index data.priority model.minimises difference)

end MixedInteger.Model
