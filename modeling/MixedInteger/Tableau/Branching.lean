import MixedInteger.Options
import MixedInteger.Tableau.Basic
import MixedInteger.Tableau.Selection

/-!
# Fractional variables

A basic solution is integral when every integer variable is within the precision
of an integer.  Where it is not, a search branches on one of the variables that
are further away.  Non-basic variables are zero and never matter here.
-/

namespace MixedInteger.Tableau

variable {α : Type} [Scalar α]

def distanceToInteger (value : α) : α :=
  Scalar.abs (value - Scalar.round value)

def basicValues (t : Tableau α) (indices : List Nat) : List (Nat × α) :=
  indices.filterMap fun index =>
    (t.dictionary.row? index).map fun r => (index, t.dictionary.entry r 0)

/-- Whether all variables in a list are within the precision of an integer. -/
def isIntegralOn (t : Tableau α) (indices : List Nat) : Bool :=
  (t.basicValues indices).all fun entry => distanceToInteger entry.2 ≤ t.precision

/-- The basic variables in a list that are further from an integer than the
precision, with their values. -/
def fractionalValues (t : Tableau α) (indices : List Nat) : List (Nat × α) :=
  (t.basicValues indices).filter fun entry => !(distanceToInteger entry.2 ≤ t.precision : Bool)

/-- The product of the distances of all fractional variables to their nearest
integers, or zero if there is none. -/
def fractionalVolume (t : Tableau α) (indices : List Nat) : α :=
  match t.fractionalValues indices with
  | [] => 0
  | entries => entries.foldl (fun volume entry => volume * distanceToInteger entry.2) 1

def mostFractional? (t : Tableau α) (indices : List Nat) : Option (Nat × α) :=
  select (fun fraction mark => mark < fraction) t.precision
    ((t.basicValues indices).map fun entry => (entry, distanceToInteger entry.2))

def lowestCostFractional? (t : Tableau α) (indices : List Nat) : Option (Nat × α) :=
  let cheaper : Option α → Option α → Bool
    | some cost, some mark => cost < mark
    | some _, none => true
    | none, _ => false
  select cheaper none
    ((t.fractionalValues indices).map fun entry =>
      (entry, some (((t.lookup? entry.1).map Variable.cost).getD 0)))

def branchingVariable? (t : Tableau α) (rule : Branching) (indices : List Nat) :
    Option (Nat × α) :=
  match rule with
  | .mostFractional => t.mostFractional? indices
  | .lowestCostFractional => t.lowestCostFractional? indices

end MixedInteger.Tableau
