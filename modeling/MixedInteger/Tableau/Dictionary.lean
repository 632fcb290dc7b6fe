import MixedInteger.Priority
import MixedInteger.Scalar
import MixedInteger.Tableau.Places

/-!
# Dictionaries

A dictionary expresses some variables, the basic ones, through the others.  Row
zero of its matrix is the objective and column zero the right-hand side; the
basic variable `x` of row `r` satisfies

  `x = matrix[r][0] - ∑ c, matrix[r][c] * x_c`

over the non-basic variables `x_c`.  Row zero holds the reduced costs of a
maximisation, and `matrix[0][0]` the objective in minimisation orientation.  The
rows of the secondary objectives shadow row zero.

A pivot exchanges a basic and a non-basic variable.  All changes of the basis go
through `Dictionary.pivot`.
-/

namespace MixedInteger

/-- An objective of positive priority with its reduced costs, laid out like row
zero of the matrix. -/
structure Objective (α : Type) where
  priority : Priority
  reducedCosts : Array α
  deriving Repr, DecidableEq

/-- A system of equations solved for its basic variables. -/
structure Dictionary (α : Type) where
  matrix : Array (Array α)
  /-- The basic variable of each row; row zero has none. -/
  basic : Array (Option Nat)
  /-- The non-basic variable of each column; column zero has none. -/
  nonBasic : Array (Option Nat)
  rowOf : Places
  columnOf : Places
  /-- The secondary objectives by ascending priority. -/
  secondary : List (Objective α)
  deriving Repr, DecidableEq

namespace Dictionary

variable {α : Type}

/-- The number of rows, that of the objective included. -/
def height (d : Dictionary α) : Nat :=
  d.basic.size

/-- The number of columns, that of the right-hand side included. -/
def width (d : Dictionary α) : Nat :=
  d.nonBasic.size

def row? (d : Dictionary α) (index : Nat) : Option Nat :=
  d.rowOf.position index

def column? (d : Dictionary α) (index : Nat) : Option Nat :=
  d.columnOf.position index

def basicAt (d : Dictionary α) (row : Nat) : Option Nat :=
  d.basic[row]?.join

def nonBasicAt (d : Dictionary α) (column : Nat) : Option Nat :=
  d.nonBasic[column]?.join

def rows (d : Dictionary α) : List Nat :=
  List.range' 1 (d.height - 1)

def columns (d : Dictionary α) : List Nat :=
  List.range' 1 (d.width - 1)

def row (d : Dictionary α) (r : Nat) : Array α :=
  d.matrix.getD r #[]

def modifyRow (d : Dictionary α) (r : Nat) (change : Array α → Array α) : Dictionary α :=
  { d with matrix := d.matrix.modify r change }

variable [Scalar α]

/-- An entry of a row, zero outside of it. -/
def entryOf (row : Array α) (column : Nat) : α :=
  row.getD column 0

def entry (d : Dictionary α) (r c : Nat) : α :=
  entryOf (d.row r) c

def empty : Dictionary α where
  matrix := #[#[0]]
  basic := #[none]
  nonBasic := #[none]
  rowOf := .empty
  columnOf := .empty
  secondary := []

/-- The value of a variable in the basic solution: the right-hand side of its row
if it is basic, and zero otherwise. -/
def valueOf (d : Dictionary α) (index : Nat) : α :=
  match d.row? index with
  | some r => d.entry r 0
  | none => 0

def subtractMultiple (target : Array α) (factor : α) (source : Array α) : Array α :=
  target.mapIdx fun c value => value - factor * entryOf source c

def addAt (row : Array α) (column : Nat) (difference : α) : Array α :=
  row.modify column (· + difference)

/-- Changes the reduced costs of a priority in a list by ascending priority,
starting from a blank row where the priority has none yet. -/
def updateObjective (priority : Priority) (blank : Array α) (change : Array α → Array α) :
    List (Objective α) → List (Objective α)
  | [] => [⟨priority, change blank⟩]
  | objective :: rest =>
    if objective.priority.level == priority.level then
      ⟨objective.priority, change objective.reducedCosts⟩ :: rest
    else if priority.level < objective.priority.level then
      ⟨priority, change blank⟩ :: objective :: rest
    else objective :: updateObjective priority blank change rest

def modifyObjective (d : Dictionary α) (priority : Priority) (change : Array α → Array α) :
    Dictionary α :=
  if priority.isRequired then d.modifyRow 0 change
  else
    let blank : Array α := Array.replicate d.width 0
    { d with secondary := updateObjective priority blank change d.secondary }

/-- The entries of a pivot row divided by the pivot; an entry too small to count
is dropped. -/
def scale (row : Array α) (quotient : α) : Array (Option α) :=
  row.map fun value =>
    if Scalar.pivotZero < Scalar.abs value then some (value / quotient) else none

def normalise (scaled : Array (Option α)) (column : Nat) (quotient : α) : Array α :=
  (scaled.map fun value => value.getD 0).setIfInBounds column (1 / quotient)

def eliminate (scaled : Array (Option α)) (column : Nat) (quotient : α) (target : Array α) :
    Array α :=
  let coefficient := entryOf target column
  if Scalar.abs coefficient ≤ Scalar.pivotZero then target.setIfInBounds column 0
  else
    let reduced := target.mapIdx fun c value =>
      match scaled[c]?.join with
      | some entry => value - coefficient * entry
      | none => value
    reduced.setIfInBounds column (-coefficient / quotient)

/-- Exchanges the names of a basic and a non-basic variable. -/
def exchange {β : Type} (d : Dictionary β) (r c : Nat) : Dictionary β :=
  match d.basicAt r, d.nonBasicAt c with
  | some leaving, some entering =>
    { d with
      basic := d.basic.setIfInBounds r (some entering)
      nonBasic := d.nonBasic.setIfInBounds c (some leaving)
      rowOf := (d.rowOf.place entering r).clear leaving
      columnOf := (d.columnOf.clear entering).place leaving c }
  | _, _ => d

/-- Exchanges the basic variable of row `r` with the non-basic variable of column
`c`. -/
def pivot (d : Dictionary α) (r c : Nat) : Dictionary α :=
  let quotient := d.entry r c
  let scaled := scale (d.row r) quotient
  { d.exchange r c with
    matrix := d.matrix.mapIdx fun i row =>
      if i == r then normalise scaled c quotient else eliminate scaled c quotient row
    secondary := d.secondary.map fun objective =>
      { objective with reducedCosts := eliminate scaled c quotient objective.reducedCosts } }

/-- Adds a row in which a new variable is basic. -/
def pushRow {β : Type} (d : Dictionary β) (slack : Nat) (row : Array β) : Dictionary β :=
  { d with
    matrix := d.matrix.push row
    basic := d.basic.push (some slack)
    rowOf := d.rowOf.place slack d.height
    columnOf := (d.columnOf.cover slack).clear slack }

/-- Adds a column of zeros for a new non-basic variable. -/
def pushColumn (d : Dictionary α) (index : Nat) : Dictionary α :=
  { d with
    matrix := d.matrix.map fun row => row.push 0
    secondary := d.secondary.map fun objective =>
      { objective with reducedCosts := objective.reducedCosts.push 0 }
    nonBasic := d.nonBasic.push (some index)
    columnOf := d.columnOf.place index d.width
    rowOf := (d.rowOf.cover index).clear index }

/-- Removes a position, where the last element takes its place. -/
def swapErase {β : Type} (items : Array β) (position : Nat) : Array β :=
  match items.back? with
  | some last => (items.setIfInBounds position last).pop
  | none => items

def dropRow {β : Type} (d : Dictionary β) (r : Nat) : Dictionary β :=
  let basic := swapErase d.basic r
  { d with
    matrix := swapErase d.matrix r
    basic := basic
    rowOf := match basic[r]?.join with
      | some moved => d.rowOf.place moved r
      | none => d.rowOf }

def dropColumn {β : Type} (d : Dictionary β) (c : Nat) : Dictionary β :=
  let nonBasic := swapErase d.nonBasic c
  { d with
    matrix := d.matrix.map fun row => swapErase row c
    secondary := d.secondary.map fun objective =>
      { objective with reducedCosts := swapErase objective.reducedCosts c }
    nonBasic := nonBasic
    columnOf := match nonBasic[c]?.join with
      | some moved => d.columnOf.place moved c
      | none => d.columnOf }

/-- Forgets where a variable stands. -/
def forget {β : Type} (d : Dictionary β) (index : Nat) : Dictionary β :=
  { d with rowOf := d.rowOf.clear index, columnOf := d.columnOf.clear index }

end Dictionary

end MixedInteger
