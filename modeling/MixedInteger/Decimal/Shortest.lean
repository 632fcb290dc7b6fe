/-!
# Shortest decimals

A finite binary floating-point number stands for an interval of reals: those that
round to it.  The decimal written for it is the one with the fewest digits in
that interval, and among those the nearest to the number itself.  Everything here
is exact arithmetic on natural numbers; the finer and finer decimal grids are
tried one after the other until one of them has a point in the interval.
-/

namespace MixedInteger.Decimal

/-- A positive binary number `significand * 2 ^ exponent`.  `narrowBelow` holds
when the gap to the number below is half the gap to the number above, as happens
at powers of two. -/
structure Binary where
  significand : Nat
  exponent : Int
  narrowBelow : Bool

/-- The leading bit of a significand, `2⁵²`, which the bits leave out. -/
def hiddenBit : Nat := 4503599627370496

/-- The magnitude that the bits of a finite floating-point number stand for. -/
def Binary.ofBits (bits : UInt64) : Binary :=
  let scale : Nat := (bits.toNat / hiddenBit) % 2048
  let fraction : Nat := bits.toNat % hiddenBit
  if scale == 0 then ⟨fraction, -1074, false⟩
  else ⟨hiddenBit + fraction, (scale : Int) - 1075, fraction == 0 && 1 < scale⟩

/-- The decimal number `digits * 10 ^ exponent`. -/
structure Digits where
  digits : Nat
  exponent : Int
  deriving Repr, DecidableEq

/-- Compares `digits * 10 ^ exponent` with `significand * 2 ^ power`, exactly. -/
def Digits.compareBinary (decimal : Digits) (significand : Nat) (power : Int) : Ordering :=
  compare (decimal.digits * Nat.pow 10 decimal.exponent.toNat * Nat.pow 2 (-power).toNat)
    (significand * Nat.pow 2 power.toNat * Nat.pow 10 (-decimal.exponent).toNat)

/-- Whether a decimal lies among the reals that round to the binary number, to
nearest and with ties to the even significand. -/
def Binary.readsBack (number : Binary) (decimal : Digits) : Bool :=
  let lower := if number.narrowBelow then 4 * number.significand - 1
    else 4 * number.significand - 2
  let upper := 4 * number.significand + 2
  let endsIncluded := number.significand % 2 == 0
  let atLower := decimal.compareBinary lower (number.exponent - 2)
  let atUpper := decimal.compareBinary upper (number.exponent - 2)
  (atLower == .gt || (endsIncluded && atLower == .eq)) &&
    (atUpper == .lt || (endsIncluded && atUpper == .eq))

/-- Where a number half way between two candidates goes. -/
inductive Tie where
  | toEven
  | up
  deriving Repr, DecidableEq

/-- The exponent of the leading decimal digit of a positive binary number. -/
def Binary.leadingExponent (number : Binary) : Int :=
  let log := (number.significand.log2 : Int) + number.exponent
  let estimate := (log * 30103) / 100000 - 1
  let reaches (power : Int) : Bool :=
    (Digits.mk 1 power).compareBinary number.significand number.exponent != .gt
  if reaches (estimate + 2) then estimate + 2
  else if reaches (estimate + 1) then estimate + 1
  else estimate

/-- The greatest multiple of `10 ^ grid` that is not above the number, in units
of `10 ^ grid`. -/
def Binary.floorOnGrid (number : Binary) (grid : Int) : Nat :=
  (number.significand * Nat.pow 2 number.exponent.toNat * Nat.pow 10 (-grid).toNat) /
    (Nat.pow 2 (-number.exponent).toNat * Nat.pow 10 grid.toNat)

/-- Of two neighbours on a decimal grid, the one that reads back, or the nearer
one when both do. -/
def Binary.candidateOnGrid (number : Binary) (tie : Tie) (grid : Int) : Option Digits :=
  let floor := number.floorOnGrid grid
  let low : Digits := ⟨floor, grid⟩
  let high : Digits := ⟨floor + 1, grid⟩
  match number.readsBack low, number.readsBack high with
  | false, false => none
  | true, false => some low
  | false, true => some high
  | true, true =>
    let middle : Digits := ⟨2 * floor + 1, grid⟩
    match middle.compareBinary (2 * number.significand) number.exponent, tie with
    | .lt, _ => some high
    | .gt, _ => some low
    | .eq, .up => some high
    | .eq, .toEven => some (if floor % 2 == 0 then low else high)

def Binary.exact (number : Binary) : Digits :=
  if 0 ≤ number.exponent then ⟨number.significand * Nat.pow 2 number.exponent.toNat, 0⟩
  else ⟨number.significand * Nat.pow 5 (-number.exponent).toNat, number.exponent⟩

/-- Moves trailing zeros of at most `steps` digits into the exponent. -/
def Digits.stripZeros : Nat → Digits → Digits
  | 0, decimal => decimal
  | steps + 1, decimal =>
    if decimal.digits != 0 && decimal.digits % 10 == 0 then
      stripZeros steps ⟨decimal.digits / 10, decimal.exponent + 1⟩
    else decimal

/-- The shortest decimal that reads back as a positive binary number.  Seventeen
digits always suffice; the exact value stands behind them. -/
def Binary.shortest (number : Binary) (tie : Tie) : Digits :=
  let leading := number.leadingExponent
  let found := (List.range 17).findSome? fun (extra : Nat) =>
    number.candidateOnGrid tie (leading - (extra : Int))
  let chosen := found.getD number.exact
  chosen.stripZeros 800

end MixedInteger.Decimal
