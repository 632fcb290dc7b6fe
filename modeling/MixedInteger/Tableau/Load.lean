import MixedInteger.Constraint
import MixedInteger.Tableau.Basic

/-!
# Loading a model

The tableau of a model starts with every declared variable non-basic and the
slack of every constraint basic in a row of its own.
-/

namespace MixedInteger.Tableau

variable {α : Type} [Scalar α]

/-- A tableau with the same variables and an empty matrix of the given size. -/
def clearTo (t : Tableau α) (height width : Nat) : Tableau α :=
  { t with
    dictionary :=
      { matrix := Array.replicate height (Array.replicate width 0)
        basic := Array.replicate height none
        nonBasic := Array.replicate width none
        rowOf := ⟨Array.replicate t.pool.next none⟩
        columnOf := ⟨Array.replicate t.pool.next none⟩
        secondary := [] }
    isFeasible := true
    isBounded := true
    evaluation := .finite 0
    unboundedIndex := none
    optimaReached := 0
    nodesExplored := 0
    isIntegral := false }

/-- Writes a variable and its cost into a column. -/
def loadColumn (minimises : Bool) (index column : Nat) : Action α Unit := do
  let t ← get
  match t.lookup? index with
  | none => raise (.variableNotInModel index)
  | some data =>
    let orientation : α := if minimises then -1 else 1
    let cost := orientation * data.cost
    let d := t.dictionary.modifyObjective data.priority fun row => row.setIfInBounds column cost
    set { t with
      dictionary := { d with
        nonBasic := d.nonBasic.setIfInBounds column (some index)
        rowOf := d.rowOf.clear index
        columnOf := d.columnOf.place index column } }

def loadTerm (slack r : Nat) (sign : α) (term : Term α) : Action α Unit := do
  let t ← get
  match t.dictionary.column? term.index with
  | none => raise (.termNotInModel slack term.index)
  | some column =>
    set (t.modifyDictionary fun d =>
      d.modifyRow r fun row => row.setIfInBounds column (sign * term.coefficient))

/-- Writes a constraint into a row, as an equation for its slack. -/
def loadRow (constraint : Constraint α) (r : Nat) : Action α Unit := do
  modify fun t => t.modifyDictionary fun d =>
    { d with
      basic := d.basic.setIfInBounds r (some constraint.slack)
      rowOf := d.rowOf.place constraint.slack r
      columnOf := d.columnOf.clear constraint.slack }
  constraint.terms.forM (loadTerm constraint.slack r constraint.sign)
  modify fun t => t.modifyDictionary fun d =>
    d.modifyRow r fun row => row.setIfInBounds 0 (constraint.sign * constraint.rhs)

/-- Builds the tableau of a model from scratch. -/
def load (indices : List Nat) (constraints : List (Constraint α)) (minimises : Bool) :
    Action α Unit := do
  modify fun t => t.discardSearch.clearTo (constraints.length + 1) (indices.length + 1)
  (indices.zipIdx 1).forM fun (index, column) => loadColumn minimises index column
  (constraints.zipIdx 1).forM fun (constraint, r) => loadRow constraint r

end MixedInteger.Tableau
