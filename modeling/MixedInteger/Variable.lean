import MixedInteger.Priority
import MixedInteger.Scalar

/-!
# Variables

What is known about a variable apart from its place in the tableau.  Every
constraint brings a variable of its own, its slack, which takes up the difference
between the two sides.
-/

namespace MixedInteger

/-- Which values a variable may take, and whether it was declared at all. -/
inductive VariableKind where
  | continuous
  | integer
  /-- The variable of a constraint. -/
  | slack
  deriving Repr, DecidableEq

/-- A variable with its cost and its value after the last solve. -/
structure Variable (α : Type) where
  name : String
  cost : α
  index : Nat
  value : α
  /-- The objective that the cost belongs to. -/
  priority : Priority
  kind : VariableKind
  /-- Whether the variable may be negative. -/
  isFree : Bool
  deriving Repr, DecidableEq

namespace Variable

variable {α : Type} [Scalar α]

/-- A variable that has not been given a value yet. -/
def declare (name : String) (cost : α) (index : Nat) (priority : Priority)
    (kind : VariableKind) (isFree : Bool) : Variable α where
  name := name
  cost := cost
  index := index
  value := 0
  priority := priority
  kind := kind
  isFree := isFree

/-- The variable of a constraint. -/
def slack (index : Nat) : Variable α :=
  declare s!"s{index}" 0 index .required .slack false

def isInteger {β : Type} (data : Variable β) : Bool :=
  data.kind == .integer

def isSlack {β : Type} (data : Variable β) : Bool :=
  data.kind == .slack

end Variable

end MixedInteger
