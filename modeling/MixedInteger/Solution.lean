import MixedInteger.Extended
import MixedInteger.OrderedMap

/-!
# Solutions

The outcome of a solve in the direction of the model: the verdict, the objective,
and the values of the variables that are basic.
-/

namespace MixedInteger

/-- An improving solution that a search found on its way. -/
structure KeptSolution (α : Type) where
  result : α
  values : OrderedMap String α
  deriving Repr, DecidableEq

structure Solution (α : Type) where
  evaluation : Extended α
  isFeasible : Bool
  isBounded : Bool
  /-- Only given for models with integer variables. -/
  isIntegral : Option Bool
  /-- The number of nodes explored, for models with integer variables. -/
  iterations : Option Nat
  /-- A variable that improves the objective without end. -/
  unboundedVariable : Option String
  /-- The values of the basic variables by name, in order of their rows. -/
  values : OrderedMap String α
  kept : List (KeptSolution α)
  deriving Repr, DecidableEq

namespace Solution

variable {α : Type}

/-- The value of a variable; variables that are not listed are zero. -/
def value [Scalar α] (solution : Solution α) (name : String) : α :=
  (solution.values.get? name).getD 0

def isKnownIntegral (solution : Solution α) : Bool :=
  solution.isIntegral == some true

end Solution

end MixedInteger
