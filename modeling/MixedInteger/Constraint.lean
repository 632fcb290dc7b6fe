import MixedInteger.Scalar

/-!
# Constraints

An inequality between a linear form and a number.  Upper and lower bounds are
kept as they were stated; a sign turns a lower bound into the `≤` form that the
tableau holds.  An equality is a pair of opposite inequalities.
-/

namespace MixedInteger

/-- A multiple of a variable. -/
structure Term (α : Type) where
  /-- The index of the variable. -/
  index : Nat
  coefficient : α
  deriving Repr, DecidableEq

/-- The inequality that owns a slack variable. -/
structure Constraint (α : Type) where
  slack : Nat
  rhs : α
  isUpperBound : Bool
  terms : List (Term α)
  /-- The index of the variable that takes up a violation, if there is one. -/
  relaxation : Option Nat
  deriving Repr, DecidableEq

/-- The sign that brings an inequality into `≤` form. -/
def boundSign {α : Type} [Scalar α] (isUpperBound : Bool) : α :=
  if isUpperBound then 1 else -1

namespace Constraint

variable {α : Type}

/-- An inequality without terms. -/
def bound (slack : Nat) (rhs : α) (isUpperBound : Bool) : Constraint α :=
  ⟨slack, rhs, isUpperBound, [], none⟩

def sign [Scalar α] (constraint : Constraint α) : α :=
  boundSign constraint.isUpperBound

def coefficientOf? (constraint : Constraint α) (index : Nat) : Option α :=
  (constraint.terms.find? fun term => term.index == index).map Term.coefficient

/-- Writes a coefficient over the first term of a variable, or adds a term. -/
def writeTerm : List (Term α) → Nat → α → List (Term α)
  | [], index, coefficient => [⟨index, coefficient⟩]
  | term :: rest, index, coefficient =>
    if term.index == index then ⟨index, coefficient⟩ :: rest
    else term :: writeTerm rest index coefficient

def setCoefficient (constraint : Constraint α) (index : Nat) (coefficient : α) : Constraint α :=
  { constraint with terms := writeTerm constraint.terms index coefficient }

/-- The constraint without any mention of a variable. -/
def forget (constraint : Constraint α) (index : Nat) : Constraint α :=
  { constraint with
    terms := constraint.terms.filter fun term => !(term.index == index)
    relaxation := if constraint.relaxation == some index then none else constraint.relaxation }

end Constraint

/-- How a constraint is referred to, by the slacks of its inequalities. -/
inductive ConstraintRef where
  | inequality (slack : Nat)
  | equality (upper lower : Nat)
  deriving Repr, DecidableEq

/-- The slacks of the inequalities behind a reference. -/
def ConstraintRef.slacks : ConstraintRef → List Nat
  | .inequality slack => [slack]
  | .equality upper lower => [upper, lower]

end MixedInteger
