import MixedInteger.Tableau.Edit

/-!
# Cuts

A search narrows a relaxation in two ways.  A bound cut keeps a single variable on
one side of a value.  A rounding cut is derived from a row whose basic variable is
integer but has a fractional value: it holds at every integral point and fails at
the present basic solution.
-/

namespace MixedInteger

/-- The side on which a bound cut keeps its variable. -/
inductive CutKind where
  | atLeast
  | atMost
  deriving Repr, DecidableEq

/-- A bound on a single variable. -/
structure Cut (α : Type) where
  kind : CutKind
  index : Nat
  value : α
  deriving Repr, DecidableEq

namespace Tableau

variable {α : Type} [Scalar α]

def addCut (cut : Cut α) : Action α Unit := do
  let (slack, t) := (← get).registerSlack
  set t
  addConstraint slack (cut.kind == .atMost) cut.value [⟨cut.index, 1⟩]

def addCuts (cuts : List (Cut α)) : Action α Unit :=
  cuts.forM addCut

/-- The fractional part of a number that is not within the precision of an
integer. -/
def fractionalPart? (t : Tableau α) (value : α) : Option α :=
  let fraction := value - Scalar.floor value
  if fraction < t.precision || 1 - t.precision < fraction then none else some fraction

def dependsOnFree (t : Tableau α) (r : Nat) : Bool :=
  t.dictionary.columns.any fun c =>
    t.precision < Scalar.abs (t.dictionary.entry r c) &&
      t.isFree (t.dictionary.nonBasicAt c)

/-- The fractional part of the right-hand side of a row from which a rounding cut
can be derived. -/
def cutFraction? (t : Tableau α) (r : Nat) : Option α :=
  if r == 0 || !t.isInteger (t.dictionary.basicAt r) || t.dependsOnFree r then none
  else t.fractionalPart? (t.dictionary.entry r 0)

def roundedCoefficient (isInteger : Bool) (fraction entry : α) : α :=
  if isInteger then
    Scalar.floor entry +
      Scalar.positivePart (entry - Scalar.floor entry - fraction) / (1 - fraction)
  else Scalar.negativePart (entry / (1 - fraction))

/-- The row `x + ∑ aⱼxⱼ = b` rounded to `x + ∑ gⱼxⱼ ≤ ⌊b⌋`, as a row for its new
slack. -/
def roundedRow (t : Tableau α) (r : Nat) (fraction : α) : Array α :=
  (t.dictionary.row r).mapIdx fun c entry =>
    if c == 0 then Scalar.floor entry - entry
    else
      roundedCoefficient (t.isInteger (t.dictionary.nonBasicAt c)) fraction entry - entry

def fractionalCoefficient (isInteger : Bool) (fraction entry : α) : α :=
  if isInteger then
    let entryFraction := entry - Scalar.floor entry
    if entryFraction ≤ fraction then -entryFraction
    else -(1 - entryFraction) * fraction / (1 - fraction)
  else if 0 ≤ entry then -entry
  else entry * fraction / (1 - fraction)

/-- The row `x + ∑ aⱼxⱼ = b` turned into `∑ hⱼxⱼ ≥ f` with the fractional part `f`
of `b`, as a row for its new slack. -/
def fractionalRow (t : Tableau α) (r : Nat) (fraction : α) : Array α :=
  (t.dictionary.row r).mapIdx fun c entry =>
    if c == 0 then -fraction
    else fractionalCoefficient (t.isInteger (t.dictionary.nonBasicAt c)) fraction entry

def pushCutRow (t : Tableau α) (row : Array α) : Tableau α :=
  let (slack, t) := t.registerSlack
  t.modifyDictionary fun d => d.pushRow slack row

/-- Pushes the row that is derived from another one, if that one allows a cut, and tells
whether it does. -/
def addDerivedCut (derive : Tableau α → Nat → α → Array α) (t : Tableau α) (r : Nat) :
    Tableau α × Bool :=
  match t.cutFraction? r with
  | none => (t, false)
  | some fraction => (t.pushCutRow (derive t r fraction), true)

def addRoundedCut (t : Tableau α) (r : Nat) : Tableau α × Bool :=
  t.addDerivedCut roundedRow r

def addFractionalCut (t : Tableau α) (r : Nat) : Tableau α × Bool :=
  t.addDerivedCut fractionalRow r

/-- Adds the two rounding cuts of a row, and counts them.  The second one asks anew
whether the row allows a cut, since the first one brought a variable. -/
def addRoundingCutsOf (t : Tableau α) (r : Nat) : Tableau α × Nat :=
  let (t, isRounded) := t.addRoundedCut r
  let (t, isFractional) := t.addFractionalCut r
  (t, isRounded.toNat + isFractional.toNat)

def fractionalRows (t : Tableau α) (indices : List Nat) : List Nat :=
  t.dictionary.rows.filter fun r =>
    (t.dictionary.basicAt r).any indices.contains &&
      (t.fractionalPart? (t.dictionary.entry r 0)).isSome

/-- Adds the rounding cuts of all rows that allow them, and counts them. -/
def addRoundingCuts (t : Tableau α) (indices : List Nat) : Tableau α × Nat :=
  (t.fractionalRows indices).foldl
    (fun (t, added) r =>
      let (t, more) := t.addRoundingCutsOf r
      (t, added + more))
    (t, 0)

end Tableau

end MixedInteger
