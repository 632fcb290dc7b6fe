import MixedInteger.Constraint
import MixedInteger.Tableau.Basic

/-!
# Editing a solved tableau

Every edit of a model is carried out on the dictionary in place, so the next solve
continues from the present basis.  Differences are given in the orientation of the
model; the signs of lower bounds and of minimisation are applied here.  An edit
first leaves a pending search.
-/

namespace MixedInteger.Tableau

variable {α : Type} [Scalar α]

/-- A difference of a bound in `≤` form. -/
def orientBound (isUpperBound : Bool) (difference : α) : α :=
  if isUpperBound then difference else -difference

/-- A difference of a cost in the orientation of the objective rows. -/
def orientCost (minimises : Bool) (difference : α) : α :=
  if minimises then -difference else difference

/-- Makes a variable basic, if it is not, by a pivot on the first row that allows
it.  Returns the row. -/
def enterBasis (index : Nat) : Action α Nat := do
  let t ← get
  let d := t.dictionary
  match d.row? index with
  | some r => pure r
  | none =>
    match d.column? index with
    | none => raise (.variableNotInTableau index)
    | some c =>
      match d.rows.find? fun r => t.precision < Scalar.abs (d.entry r c) with
      | none => raise (.cannotEnter index)
      | some r =>
        set (t.pivot r c)
        pure r

/-- Makes a variable non-basic, if it is not, by a pivot on the first column that
allows it.  Returns the column. -/
def leaveBasis (index : Nat) : Action α Nat := do
  let t ← get
  let d := t.dictionary
  match d.column? index with
  | some c => pure c
  | none =>
    match d.row? index with
    | none => raise (.variableNotInTableau index)
    | some r =>
      match d.columns.find? fun c => t.precision < Scalar.abs (d.entry r c) with
      | none => raise (.cannotLeave index)
      | some c =>
        set (t.pivot r c)
        pure c

def shiftAlong (column : Nat) (difference : α) (row : Array α) : Array α :=
  Dictionary.addAt row 0 (difference * Dictionary.entryOf row column)

def changeRhs (slack : Nat) (isUpperBound : Bool) (difference : α) : Action α Unit := do
  modify Tableau.discardSearch
  let t ← get
  let difference := orientBound isUpperBound difference
  match t.dictionary.row? slack with
  | some r =>
    set (t.modifyDictionary fun d => d.modifyRow r fun row => Dictionary.addAt row 0 difference)
  | none =>
    match t.dictionary.column? slack with
    | none => raise (.constraintNotInTableau slack)
    | some c =>
      set (t.modifyDictionary fun d =>
        { d with
          matrix := d.matrix.map (shiftAlong c difference)
          secondary := d.secondary.map fun objective =>
            { objective with
              reducedCosts := shiftAlong c difference objective.reducedCosts } })

/-- Adds a multiple of a variable to a row: at its column if it is non-basic, and
through its own row if it is basic. -/
def addToRow? (d : Dictionary α) (index : Nat) (coefficient : α) (row : Array α) :
    Option (Array α) :=
  match d.column? index with
  | some c => some (Dictionary.addAt row c coefficient)
  | none => (d.row? index).map fun r => Dictionary.subtractMultiple row coefficient (d.row r)

def changeCoefficient (slack : Nat) (isUpperBound : Bool) (index : Nat) (difference : α) :
    Action α Unit := do
  if slack == index then raise (.ownSlack slack)
  modify Tableau.discardSearch
  let r ← enterBasis slack
  let t ← get
  let d := t.dictionary
  match addToRow? d index (orientBound isUpperBound difference) (d.row r) with
  | some row => set (t.modifyDictionary fun d => d.modifyRow r fun _ => row)
  | none => raise (.variableNotInTableau index)

def changeCost (index : Nat) (priority : Priority) (minimises : Bool) (difference : α) :
    Action α Unit := do
  modify Tableau.discardSearch
  let t ← get
  let d := t.dictionary
  let difference := orientCost minimises difference
  match d.column? index, d.row? index with
  | some c, _ =>
    set (t.modifyDictionary fun d =>
      d.modifyObjective priority fun row => Dictionary.addAt row c difference)
  | none, some r =>
    let source := d.row r
    set (t.modifyDictionary fun d =>
      d.modifyObjective priority fun row => Dictionary.subtractMultiple row difference source)
  | none, none => raise (.variableNotInTableau index)

def addTerms (d : Dictionary α) (sign : α) : List (Term α) → Array α → Except Fault (Array α)
  | [], row => .ok row
  | term :: rest, row =>
    match addToRow? d term.index (sign * term.coefficient) row with
    | some row => addTerms d sign rest row
    | none => .error (Cause.variableNotInTableau term.index)

/-- Adds a row for a constraint, in which its slack is basic. -/
def addConstraint (slack : Nat) (isUpperBound : Bool) (rhs : α) (terms : List (Term α)) :
    Action α Unit := do
  let t ← get
  let sign : α := boundSign isUpperBound
  let start := (Array.replicate t.dictionary.width (0 : α)).setIfInBounds 0 (sign * rhs)
  match addTerms t.dictionary sign terms start with
  | .error fault => throw fault
  | .ok row => set (t.modifyDictionary fun d => d.pushRow slack row)

/-- Drops the row of the constraint that owns a slack, and forgets the slack. -/
def removeConstraint (slack : Nat) : Action α Unit := do
  modify Tableau.discardSearch
  let r ← enterBasis slack
  modify fun t => (t.modifyDictionary fun d => d.dropRow r).release slack

/-- Adds a column for a variable that is already known; it starts non-basic. -/
def addVariable (index : Nat) (minimises : Bool) : Action α Unit := do
  let t ← get
  match t.lookup? index with
  | none => raise (.variableNotRegistered index)
  | some data =>
    let cost := orientCost minimises data.cost
    set (t.modifyDictionary fun d =>
      (d.pushColumn index).modifyObjective data.priority fun row =>
        row.setIfInBounds d.width cost)

/-- Drops the column of a variable, and forgets the variable. -/
def removeVariable (index : Nat) : Action α Unit := do
  modify Tableau.discardSearch
  let c ← leaveBasis index
  modify fun t => (t.modifyDictionary fun d => d.dropColumn c).release index

end MixedInteger.Tableau
