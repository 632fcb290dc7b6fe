/-!
# Repeated pivots

The simplex method can run in circles when pivots make no progress.  A phase
therefore remembers which variable left and which entered at every pivot, and
stops once a block of pivots is immediately followed by the same block.
-/

namespace MixedInteger

/-- A pivot as the indices of the leaving and of the entering variable. -/
structure Pivot where
  leaving : Nat
  entering : Nat
  deriving Repr, DecidableEq

/-- A repetition: the `length` pivots from `start` on are immediately repeated. -/
structure Cycle where
  start : Nat
  length : Nat
  deriving Repr, DecidableEq

def Cycle.message (cycle : Cycle) : String :=
  s!"pivot sequence of length {cycle.length} starting at pivot {cycle.start} repeats"

/-- The pivots of one phase, oldest first. -/
structure PivotHistory where
  pivots : Array Pivot
  deriving Repr, DecidableEq

namespace PivotHistory

def empty : PivotHistory := ⟨#[]⟩

def length (history : PivotHistory) : Nat :=
  history.pivots.size

/-- Whether two blocks of a given length hold the same pivots. -/
def agree (history : PivotHistory) (left right : Nat) : Nat → Bool
  | 0 => true
  | length + 1 =>
    history.pivots[left]? == history.pivots[right]? &&
      agree history (left + 1) (right + 1) length

/-- The least of `count` lengths, from `length` on, for which the block at `start` is
immediately repeated.  A pivot that equals the first one where too few are left for a
second round ends the scan, since longer blocks need more. -/
def scanLengths? (history : PivotHistory) (start length : Nat) : Nat → Option Nat
  | 0 => none
  | count + 1 =>
    if history.pivots[start]? ≠ history.pivots[start + length]? then
      history.scanLengths? start (length + 1) count
    else if history.length - (start + length) < length then none
    else if history.agree (start + 1) (start + length + 1) (length - 1) then some length
    else history.scanLengths? start (length + 1) count

/-- The shortest repetition that starts at a given pivot. -/
def cycleFrom? (history : PivotHistory) (start : Nat) : Option Cycle :=
  (history.scanLengths? start 1 (history.length - (start + 1))).map (Cycle.mk start)

/-- The repetition with the earliest start, and the shortest one from there. -/
def findCycle (history : PivotHistory) : Option Cycle :=
  (List.range (history.length - 1)).findSome? history.cycleFrom?

def push (history : PivotHistory) (pivot : Pivot) : PivotHistory :=
  ⟨history.pivots.push pivot⟩

end PivotHistory

end MixedInteger
