import MixedInteger.Tableau.Basic

/-!
# Checking a tableau

In a consistent tableau every row has the full width, the variables of rows and
columns are mapped back to where they stand and nowhere else, and every known
variable stands somewhere.
-/

namespace MixedInteger.Tableau

variable {α : Type}

/-- The first fault that a check finds in a list. -/
def checkAll {β : Type} (check : β → Option Cause) (items : List β) : Except Fault Unit :=
  match items.findSome? check with
  | some cause => .error cause
  | none => .ok ()

def checkRowLength (d : Dictionary α) (entry : Array α × Nat) : Option Cause :=
  if entry.1.size == d.width then none
  else some (.wrongRowLength entry.2 entry.1.size d.width)

def checkBasic (d : Dictionary α) (r : Nat) : Option Cause :=
  match d.basicAt r with
  | none => some .wrongDimensions
  | some index =>
    if d.row? index == some r && (d.column? index).isNone then none
    else some (.basicNotMapped index r)

def checkNonBasic (d : Dictionary α) (c : Nat) : Option Cause :=
  match d.nonBasicAt c with
  | none => some .wrongDimensions
  | some index =>
    if d.column? index == some c && (d.row? index).isNone then none
    else some (.nonBasicNotMapped index c)

def isPlaced (t : Tableau α) (index : Nat) : Bool :=
  (t.dictionary.row? index).isSome || (t.dictionary.column? index).isSome

def checkPlaced (t : Tableau α) (index : Nat) : Option Cause :=
  if (t.lookup? index).isSome && !t.isPlaced index then some (.unplaced index) else none

def validate (t : Tableau α) : Except Fault Unit := do
  let d := t.dictionary
  if d.matrix.size != d.height then .error Cause.wrongDimensions
  checkAll (checkRowLength d) d.matrix.toList.zipIdx
  checkAll (checkBasic d) d.rows
  checkAll (checkNonBasic d) d.columns
  checkAll t.checkPlaced (List.range t.arena.size)

end MixedInteger.Tableau
