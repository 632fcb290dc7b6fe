import MixedInteger.Scalar

/-!
# Numbers with two ends

Objective values live on a line with two ends: a problem without optimum has the
value `below` in minimisation orientation, and the search for a smallest or
largest quotient starts from the opposite end.  The ends are kept apart from the
numbers, so the scalars themselves need no infinities.
-/

namespace MixedInteger

/-- A number, or one of the two ends of the line. -/
inductive Extended (α : Type) where
  | below
  | finite (value : α)
  | above
  deriving Repr, DecidableEq

namespace Extended

variable {α : Type} [Scalar α]

/-- The strict order of the extended line.  A number has to be comparable to lie
between the ends. -/
def lt : Extended α → Extended α → Bool
  | .finite left, .finite right => left < right
  | .finite left, .above => Scalar.isBelowTop left
  | .below, .finite right => Scalar.isAboveBottom right
  | .below, .above => true
  | _, _ => false

def neg : Extended α → Extended α
  | .below => .above
  | .finite value => .finite (-value)
  | .above => .below

end Extended

end MixedInteger
