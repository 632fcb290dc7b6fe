import MixedInteger.Extended
import MixedInteger.Fault
import MixedInteger.Tableau.Dictionary
import MixedInteger.Variable

/-!
# The tableau

A tableau is a dictionary together with what is known about its variables, the
verdict of the last solve, and possibly a snapshot to return to.  A search adds
rows of its own and returns to the snapshot before every node, so the rows of the
model are never lost.

Operations that can fail keep what they changed before failing; they run in
`Tableau.Action`.
-/

namespace MixedInteger

/-- What a tableau returns to: its dictionary, its indices, and how many variables
it knew. -/
structure Snapshot (α : Type) where
  dictionary : Dictionary α
  pool : IndexPool
  known : Nat
  deriving Repr, DecidableEq

/-- A dictionary with its variables and the verdict of the last solve. -/
structure Tableau (α : Type) where
  /-- Magnitudes up to this one count as zero. -/
  precision : α
  dictionary : Dictionary α
  pool : IndexPool
  /-- The variables by index. -/
  arena : Array (Option (Variable α))
  isFeasible : Bool
  isBounded : Bool
  /-- The rounded objective in minimisation orientation. -/
  evaluation : Extended α
  /-- A variable that improves the objective without end. -/
  unboundedIndex : Option Nat
  /-- How often an optimum was reached since the last solve began. -/
  optimaReached : Nat
  /-- The evaluation of the first of these optima, which bounds a search. -/
  rootEvaluation : α
  /-- How many nodes the last search explored. -/
  nodesExplored : Nat
  isIntegral : Bool
  checksCycles : Bool
  snapshot : Option (Snapshot α)
  deriving Repr, DecidableEq

namespace Tableau

variable {α : Type}

/-- An operation on a tableau that may fail; what it changed stays changed. -/
abbrev Action (α β : Type) := EStateM Fault (Tableau α) β

def lookup? (t : Tableau α) (index : Nat) : Option (Variable α) :=
  t.arena[index]?.join

def modifyVariable (t : Tableau α) (index : Nat) (change : Variable α → Variable α) :
    Tableau α :=
  { t with arena := t.arena.modify index (Option.map change) }

def isFree (t : Tableau α) (index : Option Nat) : Bool :=
  (index.bind t.lookup?).any Variable.isFree

def isInteger (t : Tableau α) (index : Option Nat) : Bool :=
  (index.bind t.lookup?).any Variable.isInteger

/-- Writes a variable into the arena, adding slots as needed. -/
def record (arena : Array (Option (Variable α))) (data : Variable α) :
    Array (Option (Variable α)) :=
  let missing := data.index + 1 - arena.size
  (arena ++ Array.replicate missing none).setIfInBounds data.index (some data)

def register (t : Tableau α) (make : Nat → Variable α) : Nat × Tableau α :=
  let (index, pool) := t.pool.allocate
  (index, { t with pool := pool, arena := record t.arena (make index) })

/-- Forgets a variable and gives its index back. -/
def release (t : Tableau α) (index : Nat) : Tableau α :=
  { t with
    arena := t.arena.setIfInBounds index none
    dictionary := t.dictionary.forget index
    pool := t.pool.release index }

def save (t : Tableau α) : Tableau α :=
  { t with snapshot := some ⟨t.dictionary, t.pool, t.arena.size⟩ }

/-- Returns to the remembered state, which stays remembered.  Variables that were
not known then are forgotten. -/
def restore (t : Tableau α) : Tableau α :=
  match t.snapshot with
  | none => t
  | some snapshot =>
    { t with
      dictionary := snapshot.dictionary
      pool := snapshot.pool
      arena := snapshot.pool.free.foldl (fun arena index => arena.setIfInBounds index none)
        (t.arena.extract 0 snapshot.known) }

/-- Leaves a search: returns to the remembered state, if any, and forgets it. -/
def discardSearch (t : Tableau α) : Tableau α :=
  { t.restore with snapshot := none }

def pivot [Scalar α] (t : Tableau α) (r c : Nat) : Tableau α :=
  { t with dictionary := t.dictionary.pivot r c }

def modifyDictionary (t : Tableau α) (change : Dictionary α → Dictionary α) : Tableau α :=
  { t with dictionary := change t.dictionary }

variable [Scalar α]

def blank (precision : α) : Tableau α where
  precision := precision
  dictionary := .empty
  pool := .empty
  arena := #[]
  isFeasible := true
  isBounded := true
  evaluation := .finite 0
  unboundedIndex := none
  optimaReached := 0
  rootEvaluation := 0
  nodesExplored := 0
  isIntegral := false
  checksCycles := true
  snapshot := none

/-- Rounds to a multiple of the precision. -/
def round (t : Tableau α) (value : α) : α :=
  let steps := Scalar.round (1 / t.precision)
  Scalar.round ((value + Scalar.nudge) * steps) / steps

/-- The rounded objective of the basic solution, in minimisation orientation. -/
def objectiveValue (t : Tableau α) : α :=
  t.round (t.dictionary.entry 0 0)

def registerSlack (t : Tableau α) : Nat × Tableau α :=
  t.register Variable.slack

/-- Writes the rounded values of the basic solution into the variables. -/
def updateValues (t : Tableau α) (indices : List Nat) : Tableau α :=
  indices.foldl
    (fun t index =>
      let value := t.round (t.dictionary.valueOf index)
      t.modifyVariable index fun data => { data with value := value })
    t

end Tableau

end MixedInteger
