import MixedInteger.Word

/-!
# Scalars

The solver is written once for every kind of number it may compute with.  A
`Scalar` offers the operations the algorithms use and promises no law: the
running program computes with binary floating point, where rounding, signed
zeros and values that are not numbers all occur, and the theory reads the same
definitions over the exact rationals.
-/

namespace MixedInteger

/-- The numbers a tableau can hold.  `isBelowTop` and `isAboveBottom` say that a
number lies strictly below every upper limit, respectively strictly above every
lower one; over an ordered field they hold of every number.  `sortsBefore` is a
total preorder that also ranks numbers that `<` does not compare. -/
class Scalar (α : Type) extends Zero α, One α, Add α, Sub α, Mul α, Div α, Neg α,
    LT α, LE α, BEq α, OfScientific α where
  decLt : DecidableLT α
  decLe : DecidableLE α
  /-- The magnitude of a number. -/
  abs : α → α
  /-- The nearest integer, halves going away from zero. -/
  round : α → α
  /-- The greatest integer that is not above. -/
  floor : α → α
  /-- The least integer that is not below. -/
  ceil : α → α
  isBelowTop : α → Bool
  isAboveBottom : α → Bool
  sortsBefore : α → α → Bool

namespace Scalar

variable {α : Type} [Scalar α]

instance instDecidableLT : DecidableLT α := Scalar.decLt

instance instDecidableLE : DecidableLE α := Scalar.decLe

def positivePart (value : α) : α :=
  if 0 < value then value else 0

def negativePart (value : α) : α :=
  if value < 0 then value else 0

/-- Entries of a pivot row within this magnitude are treated as exact zeros. -/
def pivotZero : α := 1e-16

/-- The gap between one and the next number in binary floating point, `2⁻⁵²`;
it is added before rounding so that a value just below a half rounds up. -/
def nudge : α := 2.220446049250313080847263336181640625e-16

end Scalar

/-- The position of a floating-point number in the total order that puts `-0`
below `0` and every other number where `<` puts it; numbers that are not
comparable stand at the ends according to their sign bit. -/
def floatRank (value : Float) : Int :=
  let bits := value.toBits.toNat
  if bits < highBit then (bits : Int) else (highBit : Int) - 1 - bits

/-- A floating-point number moved to an integer next to it: to the one further away from
zero if that is asked for, given the sign of the number and how far its magnitude is above
an integer, and to the one nearer to zero otherwise. -/
def integralFloat (goesAway : Bool → Float → Bool) (value : Float) : Float :=
  let magnitude := value.abs
  -- From 2⁵² on every number is an integer, and what is not a number stays as it is.
  if magnitude < 4503599627370496.0 then
    let whole := magnitude.toUInt64.toFloat
    if whole == magnitude then value
    else
      let isNegative := value < 0.0
      let moved := if goesAway isNegative (magnitude - whole) then whole + 1.0 else whole
      if isNegative then -moved else moved
  else value

instance : Scalar Float where
  toZero := ⟨0⟩
  toOne := ⟨1⟩
  decLt := inferInstance
  decLe := inferInstance
  abs := Float.abs
  round := integralFloat fun _ excess => 0.5 ≤ excess
  floor := integralFloat fun isNegative _ => isNegative
  ceil := integralFloat fun isNegative _ => !isNegative
  isBelowTop value := value < 1.0 / 0.0
  isAboveBottom value := -1.0 / 0.0 < value
  sortsBefore left right := floatRank left ≤ floatRank right

/-- The nearest integer to a rational, halves going away from zero. -/
def roundRat (value : Rat) : Rat :=
  if 0 ≤ value then ((value + 1 / 2).floor : Rat) else ((value - 1 / 2).ceil : Rat)

instance : Scalar Rat where
  toZero := ⟨0⟩
  toOne := ⟨1⟩
  decLt := inferInstance
  decLe := inferInstance
  abs := Rat.abs
  round := roundRat
  floor value := (value.floor : Rat)
  ceil value := (value.ceil : Rat)
  isBelowTop _ := true
  isAboveBottom _ := true
  sortsBefore left right := left ≤ right

end MixedInteger
