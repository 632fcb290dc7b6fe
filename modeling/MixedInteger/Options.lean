import MixedInteger.Fault
import MixedInteger.Scalar

/-!
# Options of a solve

The choices that steer the search for integral solutions, and whether the simplex
method stops when it runs in circles.
-/

namespace MixedInteger

/-- Which variable a search branches on. -/
inductive Branching where
  /-- The integer variable furthest from its nearest integer. -/
  | mostFractional
  /-- The fractional integer variable with the smallest cost. -/
  | lowestCostFractional
  deriving Repr, DecidableEq

namespace Branching

def all : List Branching := [.mostFractional, .lowestCostFractional]

def name : Branching → String
  | .mostFractional => "most-fractional"
  | .lowestCostFractional => "lowest-cost-fractional"

def ofName? (text : String) : Option Branching :=
  all.find? fun rule => rule.name == text

def ofName (text : String) : Except Fault Branching :=
  match ofName? text with
  | some rule => .ok rule
  | none => .error Cause.unknownStrategy

end Branching

/-- In which order a search explores its open branches. -/
inductive NodeSelection where
  /-- The branch with the best bound first. -/
  | bestBound
  /-- The branch created last first. -/
  | depthFirst
  deriving Repr, DecidableEq

namespace NodeSelection

def all : List NodeSelection := [.bestBound, .depthFirst]

def name : NodeSelection → String
  | .bestBound => "best-bound"
  | .depthFirst => "depth-first"

def ofName? (text : String) : Option NodeSelection :=
  all.find? fun order => order.name == text

def ofName (text : String) : Except Fault NodeSelection :=
  match ofName? text with
  | some order => .ok order
  | none => .error Cause.unknownStrategy

end NodeSelection

structure Options (α : Type) where
  /-- The time a search may take, in milliseconds. -/
  timeout : Option Nat
  /-- The relative gap between the best solution found and the bound of the root
  at which a search stops. -/
  tolerance : α
  usesRoundingCuts : Bool
  stopsOnCycles : Bool
  /-- Whether every improving solution of a search is kept. -/
  keepsSolutions : Bool
  nodeSelection : NodeSelection
  branching : Branching
  deriving Repr, DecidableEq

/-- The options that hold unless others are given. -/
def Options.standard {α : Type} [Scalar α] : Options α where
  timeout := none
  tolerance := 0
  usesRoundingCuts := false
  stopsOnCycles := true
  keepsSolutions := false
  nodeSelection := .bestBound
  branching := .mostFractional

/-- The precision that holds unless another is given. -/
def standardPrecision {α : Type} [Scalar α] : α := 1e-9

end MixedInteger
