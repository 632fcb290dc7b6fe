import MixedInteger.Tableau.Basic
import MixedInteger.Tableau.Selection
import MixedInteger.Word

/-!
# The simplex method

Phase one makes the basic solution feasible with a dual ratio test on the most
violated row; phase two then improves the objectives in order of priority with a
primal ratio test.  Each phase is a function that chooses the next step of a
tableau, and a loop that takes such steps while a budget lasts.
-/

namespace MixedInteger

/-- How many steps the loops of a solve may take, and how much time has gone by
before each node of a search. -/
structure Effort where
  /-- Pivots of one phase. -/
  pivots : Nat
  /-- Rounds of rounding cuts at one node. -/
  rounds : Nat
  /-- Branches taken up by one search. -/
  branches : Nat
  /-- The milliseconds since the start of a search that has explored that many
  nodes. -/
  elapsed : Nat → Nat

/-- An effort that no solve in practice uses up, with a clock that stands still. -/
def Effort.unhurried : Effort where
  pivots := highBit
  rounds := highBit
  branches := highBit
  elapsed _ := 0

namespace Tableau

variable {α : Type} [Scalar α]

inductive PhaseOneStep where
  | feasible
  | infeasible
  | pivot (row column : Nat)
  deriving Repr, DecidableEq

/-- The row with the most negative right-hand side among those whose variable may
not be negative. -/
def violatedRow? (t : Tableau α) : Option Nat :=
  let d := t.dictionary
  select (fun value mark => value < mark) (-t.precision)
    ((d.rows.filter fun r => !t.isFree (d.basicAt r)).map fun r => (r, d.entry r 0))

/-- The column that repairs a row at the least cost. -/
def repairingColumn? (t : Tableau α) (r : Nat) : Option Nat :=
  let d := t.dictionary
  let row := d.row r
  let repairs (c : Nat) : Bool :=
    let coefficient := Dictionary.entryOf row c
    !(Scalar.abs coefficient ≤ t.precision : Bool) &&
      (coefficient < 0 || t.isFree (d.nonBasicAt c))
  select (fun quotient mark => Extended.lt mark quotient) Extended.below
    ((d.columns.filter repairs).map fun c =>
      (c, Extended.finite (-d.entry 0 c / Dictionary.entryOf row c)))

def phaseOneStep (t : Tableau α) : PhaseOneStep :=
  match t.violatedRow? with
  | none => .feasible
  | some r =>
    match t.repairingColumn? r with
    | none => .infeasible
    | some c => .pivot r c

inductive PhaseTwoStep where
  | optimal
  | unbounded (column : Nat)
  | pivot (row column : Nat)
  deriving Repr, DecidableEq

/-- A column that may enter the basis, and whether its variable would decrease. -/
structure Entering where
  column : Nat
  decreases : Bool
  deriving Repr, DecidableEq

/-- How much a column promises: its reduced cost, or the magnitude of a negative
one when its variable may decrease. -/
def promise (t : Tableau α) (reducedCosts : Array α) (c : Nat) : Entering × α :=
  let reducedCost := Dictionary.entryOf reducedCosts c
  if t.isFree (t.dictionary.nonBasicAt c) && reducedCost < 0 then (⟨c, true⟩, -reducedCost)
  else (⟨c, false⟩, reducedCost)

/-- The column that promises most, by one objective, beyond the precision. -/
def mostPromising? (t : Tableau α) (reducedCosts : Array α) (columns : List Nat) :
    Option Entering :=
  select (fun amount mark => mark < amount) t.precision (columns.map (t.promise reducedCosts))

/-- The entering column by the first objective that promises anything.  Columns
that an objective is not indifferent to are out of reach of the later ones. -/
def enteringAmong? (t : Tableau α) : List Nat → List (Array α) → Option Entering
  | _, [] => none
  | columns, reducedCosts :: lower =>
    match t.mostPromising? reducedCosts columns with
    | some entering => some entering
    | none =>
      let isTied (c : Nat) : Bool :=
        Scalar.abs (Dictionary.entryOf reducedCosts c) < t.precision
      t.enteringAmong? (columns.filter isTied) lower

def entering? (t : Tableau α) : Option Entering :=
  let d := t.dictionary
  t.enteringAmong? d.columns (d.row 0 :: d.secondary.map Objective.reducedCosts)

/-- The row that leaves the basis when a column enters it.  A row that is at its
bound already goes first, else the one that is reached first. -/
def leavingRow? (t : Tableau α) (entering : Entering) : Option Nat :=
  let d := t.dictionary
  let direction : α := if entering.decreases then -1 else 1
  let blocking := d.rows.filter fun r =>
    !t.isFree (d.basicAt r) &&
      !(Scalar.abs (d.entry r entering.column) < t.precision : Bool)
  let isAtBound (r : Nat) : Bool :=
    0 < direction * d.entry r entering.column && Scalar.abs (d.entry r 0) < t.precision
  match blocking.find? isAtBound with
  | some r => some r
  | none =>
    let quotient (r : Nat) : α := direction * d.entry r 0 / d.entry r entering.column
    select Extended.lt Extended.above
      ((blocking.filter fun r => t.precision < quotient r).map fun r =>
        (r, Extended.finite (quotient r)))

def phaseTwoStep (t : Tableau α) : PhaseTwoStep :=
  match t.entering? with
  | none => .optimal
  | some entering =>
    match t.leavingRow? entering with
    | none => .unbounded entering.column
    | some r => .pivot r entering.column

def pivotAt {β : Type} (t : Tableau β) (r c : Nat) : Pivot :=
  ⟨(t.dictionary.basicAt r).getD 0, (t.dictionary.nonBasicAt c).getD 0⟩

/-- Notes a pivot, and stops when the pivots repeat themselves. -/
def notePivot {β : Type} (phase : Phase) (history : PivotHistory) (r c : Nat) :
    Action β PivotHistory := do
  let t ← get
  if t.checksCycles then
    let history := history.push (t.pivotAt r c)
    match history.findCycle with
    | some cycle => raise (.cycle phase cycle)
    | none => pure history
  else pure history

def phaseOneLoop : Nat → PivotHistory → Action α Unit
  | 0, _ => raise .outOfSteps
  | budget + 1, history => do
    let t ← get
    match t.phaseOneStep with
    | .feasible => set { t with isFeasible := true }
    | .infeasible => set { t with isFeasible := false }
    | .pivot r c =>
      let history ← notePivot .one history r c
      modify fun t => t.pivot r c
      phaseOneLoop budget history

/-- Makes the basic solution feasible, or finds that none is. -/
def phaseOne (effort : Effort) : Action α Unit :=
  phaseOneLoop effort.pivots .empty

/-- Records that an optimum was reached.  The first one bounds the search. -/
def recordOptimum (t : Tableau α) : Tableau α :=
  { t with
    evaluation := .finite t.objectiveValue
    rootEvaluation := if t.optimaReached == 0 then t.objectiveValue else t.rootEvaluation
    optimaReached := t.optimaReached + 1 }

/-- Records that a column improves the objective without end. -/
def recordUnbounded (t : Tableau α) (column : Nat) : Tableau α :=
  { t with
    evaluation := .below
    isBounded := false
    unboundedIndex := t.dictionary.nonBasicAt column }

def phaseTwoLoop : Nat → PivotHistory → Action α Unit
  | 0, _ => raise .outOfSteps
  | budget + 1, history => do
    let t ← get
    match t.phaseTwoStep with
    | .optimal => set t.recordOptimum
    | .unbounded column => set (t.recordUnbounded column)
    | .pivot r c =>
      let history ← notePivot .two history r c
      modify fun t => t.pivot r c
      phaseTwoLoop budget history

/-- Makes a feasible basic solution optimal, or finds that nothing is. -/
def phaseTwo (effort : Effort) : Action α Unit :=
  phaseTwoLoop effort.pivots .empty

/-- Runs phase one and, from a feasible basic solution, phase two. -/
def simplex (effort : Effort) : Action α Unit := do
  modify fun t => { t with isBounded := true, unboundedIndex := none }
  phaseOne effort
  if (← get).isFeasible then phaseTwo effort

end Tableau

end MixedInteger
