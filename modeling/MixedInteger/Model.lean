import MixedInteger.OrderedMap
import MixedInteger.Tableau.Load
import MixedInteger.Tableau.Search
import MixedInteger.Tableau.Validate

/-!
# Models

A model is a linear program, possibly with integer variables and soft
constraints.  It owns a tableau.  Once the tableau has been built, every edit of
the model is carried out on it as well, so the next solve continues from where
the last one ended.
-/

namespace MixedInteger

/-- A linear or mixed-integer program with its tableau. -/
structure Model (α : Type) where
  tableau : Tableau α
  /-- The declared variables in order of creation, relaxations included. -/
  indices : List Nat
  integers : List Nat
  /-- The constraints by the index of their slack. -/
  constraints : OrderedMap Nat (Constraint α)
  minimises : Bool
  options : Options α
  /-- Whether the tableau describes the model. -/
  isLoaded : Bool
  /-- The number in the name of the next relaxation. -/
  nextRelaxation : Nat
  deriving Repr, DecidableEq

namespace Model

variable {α : Type}

/-- An operation on a model that may fail; what it changed stays changed. -/
abbrev Action (α β : Type) := EStateM Fault (Model α) β

/-- Runs an operation on the tableau of a model. -/
def onTableau {β : Type} (action : Tableau.Action α β) : Action α β := fun model =>
  match action model.tableau with
  | .ok result tableau => .ok result { model with tableau := tableau }
  | .error fault tableau => .error fault { model with tableau := tableau }

def modifyTableau (change : Tableau α → Tableau α) : Action α Unit :=
  modify fun model => { model with tableau := change model.tableau }

def discardSearch : Action α Unit :=
  modifyTableau Tableau.discardSearch

/-- What is known about the declared variables. -/
def declared (model : Model α) : List (Variable α) :=
  model.indices.filterMap model.tableau.lookup?

def lookup? (model : Model α) (index : Nat) : Option (Variable α) :=
  if model.indices.contains index then model.tableau.lookup? index else none

/-- The value of a declared variable after the last solve. -/
def value? (model : Model α) (index : Nat) : Option α :=
  (model.lookup? index).map Variable.value

/-- The constraint that owns a slack. -/
def constraint? (model : Model α) (slack : Nat) : Option (Constraint α) :=
  model.constraints.get? slack

/-- Checks that the tableau describes the model and that its basis is
consistent. -/
def validate (model : Model α) : Except Fault Unit :=
  if model.isLoaded then do
    model.tableau.validate
    let missing (cause : Nat → Cause) (index : Nat) : Option Cause :=
      if model.tableau.isPlaced index then none else some (cause index)
    Tableau.checkAll (missing .variableMissing) model.indices
    Tableau.checkAll (missing .constraintMissing) model.constraints.keys
  else .ok ()

variable [Scalar α]

/-- A model without variables and constraints; it minimises. -/
def empty (precision : α) (options : Options α) : Model α where
  tableau := .blank precision
  indices := []
  integers := []
  constraints := []
  minimises := true
  options := options
  isLoaded := false
  nextRelaxation := 1

end Model

end MixedInteger
