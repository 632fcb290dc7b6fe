import MixedInteger.Solution
import MixedInteger.Tableau.Branching
import MixedInteger.Tableau.Cut
import MixedInteger.Tableau.Simplex

/-!
# Branch and cut

A model with integer variables is solved by a search.  Each branch is a list of
bound cuts on top of the relaxation of the model; solving it bounds all integral
solutions below it.  A branch whose bound cannot beat the best solution so far is
dropped, one with an integral solution becomes the best so far, and any other is
split in two at a fractional variable.
-/

namespace MixedInteger

/-- What a search knows about the model besides its tableau. -/
structure SearchSpace (α : Type) where
  /-- The declared variables. -/
  indices : List Nat
  /-- Those of them that have to be integral. -/
  integers : List Nat
  minimises : Bool
  options : Options α

namespace SearchSpace

variable {α : Type} [Scalar α]

/-- A number in minimisation orientation, turned into the direction of the model.
Zero is reported without a sign. -/
def reported (space : SearchSpace α) (evaluation : α) : α :=
  if evaluation == 0 then 0 else if space.minimises then evaluation else -evaluation

/-- The same for an objective that may be without end. -/
def reportedExtended (space : SearchSpace α) : Extended α → Extended α
  | .finite evaluation => .finite (space.reported evaluation)
  | unending => if space.minimises then unending else unending.neg

end SearchSpace

/-- An open branch: the evaluation of the node it came from, and its cuts.  The
root has no such bound. -/
structure Branch (α : Type) where
  bound : Option α
  cuts : List (Cut α)
  deriving Repr, DecidableEq

/-- The best integral solution so far. -/
structure Incumbent (α : Type) where
  evaluation : α
  /-- The values of the secondary objectives by ascending priority. -/
  secondary : List α
  branch : Branch α
  deriving Repr, DecidableEq

structure Search (α : Type) where
  /-- The open branches, the next one first. -/
  branches : List (Branch α)
  incumbent : Option (Incumbent α)
  kept : List (KeptSolution α)
  /-- The number of nodes solved so far. -/
  nodes : Nat

namespace Branch

variable {α : Type} [Scalar α]

/-- Best bounds first; the root comes before everything. -/
def comesBefore (left right : Branch α) : Bool :=
  match left.bound, right.bound with
  | none, _ => true
  | some _, none => false
  | some left, some right => Scalar.sortsBefore left right

/-- The cuts of a branch that stay when a variable gets a new bound of a kind: the
new bound supersedes the old one. -/
def cutsBeside {β : Type} (branch : Branch β) (index : Nat) (kind : CutKind) : List (Cut β) :=
  branch.cuts.filter fun cut => !(cut.index == index && cut.kind == kind)

/-- The part of a branch on which a variable is at least the next integer. -/
def high (branch : Branch α) (bound : α) (index : Nat) (value : α) : Branch α :=
  ⟨some bound, branch.cutsBeside index .atLeast ++ [⟨.atLeast, index, Scalar.ceil value⟩]⟩

/-- The part of a branch on which a variable is at most the previous integer. -/
def low (branch : Branch α) (bound : α) (index : Nat) (value : α) : Branch α :=
  ⟨some bound, branch.cutsBeside index .atMost ++ [⟨.atMost, index, Scalar.floor value⟩]⟩

end Branch

/-- Whether a list of objective values is better at the first place where it
differs from another. -/
def precedes {α : Type} [Scalar α] : List α → List α → Bool
  | current :: currents, best :: bests =>
    if best < current then false
    else if current < best then true
    else precedes currents bests
  | _, _ => false

/-- Whether a solution improves on the best one so far.  An equal evaluation is an
improvement only if the secondary objectives are better. -/
def Incumbent.isBeatenBy {α : Type} [Scalar α] (incumbent : Incumbent α) (evaluation : α)
    (secondary : List α) : Bool :=
  if evaluation != incumbent.evaluation then evaluation < incumbent.evaluation
  else precedes secondary incumbent.secondary

namespace Search

variable {α : Type} [Scalar α]

def start : Search α := ⟨[⟨none, []⟩], none, [], 0⟩

/-- Whether the time is up.  The root is always solved. -/
def isTimedOut (search : Search α) (space : SearchSpace α) (effort : Effort) : Bool :=
  0 < search.nodes && space.options.timeout.any fun timeout =>
    timeout ≤ effort.elapsed search.nodes

def isCloseEnough (search : Search α) (space : SearchSpace α) (root : α) : Bool :=
  search.incumbent.any fun incumbent =>
    0 < space.options.tolerance &&
      incumbent.evaluation - root ≤ space.options.tolerance * Scalar.abs root

def isWorse (search : Search α) (bound : α) : Bool :=
  search.incumbent.any fun incumbent => incumbent.evaluation < bound

/-- Whether a node cannot improve on the best solution so far. -/
def isFathomed (search : Search α) (evaluation : α) (secondary : List α) : Bool :=
  search.isWorse evaluation ||
    search.incumbent.any fun incumbent => !incumbent.isBeatenBy evaluation secondary

/-- Splits a branch in two, and puts the open branches in order. -/
def split (search : Search α) (order : NodeSelection) (branch : Branch α) (bound : α)
    (index : Nat) (value : α) : Search α :=
  let branches :=
    branch.low bound index value :: branch.high bound index value :: search.branches
  { search with
    branches := match order with
      | .bestBound => branches.mergeSort Branch.comesBefore
      | .depthFirst => branches }

end Search

namespace Tableau

variable {α : Type} [Scalar α]

def secondaryValues (t : Tableau α) : List α :=
  t.dictionary.secondary.map fun objective => Dictionary.entryOf objective.reducedCosts 0

/-- The rounded values of the basic variables that are no slacks, by name and in
order of their rows. -/
def basicSolution (t : Tableau α) : OrderedMap String α :=
  t.dictionary.rows.foldl
    (fun values r =>
      match (t.dictionary.basicAt r).bind t.lookup? with
      | some data =>
        if data.isSlack then values
        else values.insert data.name (t.round (t.dictionary.entry r 0))
      | none => values)
    []

/-- How much of the fractional volume has to go for another round of cuts. -/
def volumeShrinkage : α := 0.9

/-- Rounds of rounding cuts, while they shrink the fractional volume enough. -/
def roundingRounds (effort : Effort) (integers : List Nat) : Nat → Action α Unit
  | 0 => raise .outOfSteps
  | rounds + 1 => do
    let t ← get
    if t.isFeasible && t.isBounded then
      let before := t.fractionalVolume integers
      let (t, added) := t.addRoundingCuts integers
      set t
      if added != 0 then
        simplex effort
        let after := (← get).fractionalVolume integers
        if !(volumeShrinkage * before ≤ after : Bool) then
          roundingRounds effort integers rounds

/-- Returns to the relaxation of the model, adds the cuts of a branch and solves
it. -/
def solveBranch (space : SearchSpace α) (effort : Effort) (cuts : List (Cut α)) :
    Action α Unit := do
  modify Tableau.restore
  addCuts cuts
  simplex effort
  if space.options.usesRoundingCuts then roundingRounds effort space.integers effort.rounds

/-- What a node does to a search: it goes on, or its outcome is final. -/
inductive NodeOutcome (α : Type) where
  | continue (search : Search α)
  | final (search : Search α)

/-- Makes the present solution the best so far.  The root is final. -/
def acceptNode (space : SearchSpace α) (search : Search α) (branch : Branch α) :
    Action α (NodeOutcome α) := do
  let t ← get
  let evaluation := t.objectiveValue
  set { t with isIntegral := true }
  let kept := if space.options.keepsSolutions then
      search.kept ++ [⟨space.reported evaluation, t.basicSolution⟩]
    else search.kept
  let search := { search with kept := kept }
  if search.nodes == 1 then
    modify fun t => { t with nodesExplored := search.nodes }
    pure (.final search)
  else
    pure (.continue { search with incumbent := some ⟨evaluation, t.secondaryValues, branch⟩ })

/-- Splits the present node.  The root becomes the state to return to. -/
def splitNode (space : SearchSpace α) (search : Search α) (branch : Branch α) :
    Action α (NodeOutcome α) := do
  if search.nodes == 1 then modify Tableau.save
  let t ← get
  match t.branchingVariable? space.options.branching space.integers with
  | none => raise .nothingToBranchOn
  | some (index, value) =>
    pure (.continue
      (search.split space.options.nodeSelection branch t.objectiveValue index value))

def visitNode (space : SearchSpace α) (search : Search α) (branch : Branch α) :
    Action α (NodeOutcome α) := do
  let t ← get
  if !t.isFeasible then pure (.continue search)
  else if !t.isBounded then
    set { t with nodesExplored := search.nodes }
    pure (.final search)
  else if search.isFathomed t.objectiveValue t.secondaryValues then pure (.continue search)
  else if t.isIntegralOn space.integers then acceptNode space search branch
  else splitNode space search branch

/-- Takes up open branches until none is left, the time is up, or the best
solution is close enough. -/
def explore (space : SearchSpace α) (effort : Effort) :
    Nat → Search α → Action α (NodeOutcome α)
  | 0, _ => raise .outOfSteps
  | budget + 1, search => do
    match search.branches with
    | [] => pure (.continue search)
    | branch :: branches =>
      let search := { search with branches := branches }
      let t ← get
      if search.isTimedOut space effort || search.isCloseEnough space t.rootEvaluation then
        pure (.continue search)
      else if branch.bound.any search.isWorse then explore space effort budget search
      else
        solveBranch space effort branch.cuts
        let outcome ← visitNode space { search with nodes := search.nodes + 1 } branch
        match outcome with
        | .continue search => explore space effort budget search
        | .final search => pure (.final search)

/-- Returns to the best solution of a search, or to the relaxation if there is
none. -/
def finishSearch (space : SearchSpace α) (effort : Effort) (search : Search α) :
    Action α Unit := do
  match search.incumbent with
  | some incumbent =>
    solveBranch space effort incumbent.branch.cuts
    modify fun t => { t with isIntegral := true }
  | none => modify fun t => { t.restore with isFeasible := false, isIntegral := false }
  modify fun t => { t with nodesExplored := search.nodes }

/-- Solves a model with integer variables.  Returns the solutions that were kept. -/
def branchAndCut (space : SearchSpace α) (effort : Effort) :
    Action α (List (KeptSolution α)) := do
  match ← explore space effort effort.branches Search.start with
  | .final search => pure search.kept
  | .continue search =>
    finishSearch space effort search
    pure search.kept

def solution (t : Tableau α) (space : SearchSpace α) (kept : List (KeptSolution α)) :
    Solution α where
  evaluation := space.reportedExtended t.evaluation
  isFeasible := t.isFeasible
  isBounded := t.isBounded
  isIntegral := if space.integers.isEmpty then none else some t.isIntegral
  iterations := if space.integers.isEmpty then none else some t.nodesExplored
  unboundedVariable :=
    if t.isBounded then none else (t.unboundedIndex.bind t.lookup?).map Variable.name
  values := t.basicSolution
  kept := if space.integers.isEmpty then [] else kept

/-- Solves the model of a tableau: by the simplex method alone, or by a search if
there are integer variables. -/
def solve (space : SearchSpace α) (effort : Effort) : Action α (Solution α) := do
  modify fun t =>
    { t.discardSearch with
      checksCycles := space.options.stopsOnCycles
      isIntegral := false
      optimaReached := 0
      nodesExplored := 0 }
  let kept ←
    if space.integers.isEmpty then do
      simplex effort
      pure []
    else branchAndCut space effort
  modify fun t => t.updateValues space.indices
  pure ((← get).solution space kept)

end Tableau

end MixedInteger
