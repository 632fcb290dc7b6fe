import MixedInteger.Model.Edit
import MixedInteger.Model.Solve
import MixedInteger.Proofs.TableauEdits

/-!
# Runs of operations

Everything a caller can do with a model is an `Operation`.  A run is a list of
operations with any arguments, carried out one after the other; an operation that
fails leaves the model as it was at the point of failure, and the run goes on from
there.  `Along` says that something holds of every operation of a run at the model
on which it is carried out.

`Operation.pivots` lists the pivots an operation makes on the rows of the model: those
that bring a variable into the basis or out of it, and those of the first relaxation
of a solve.
-/

namespace MixedInteger

/-- One call of the interface of a model. -/
inductive Operation (α : Type) where
  | setOptions (options : Options α)
  | minimise
  | maximise
  | addVariable (declaration : Model.Declaration α)
  | atMost (rhs : α)
  | atLeast (rhs : α)
  | equal (rhs : α)
  | addTerm (reference : ConstraintRef) (coefficient : α) (index : Nat)
  | setCoefficient (reference : ConstraintRef) (coefficient : α) (index : Nat)
  | setRhs (reference : ConstraintRef) (rhs : α)
  | relax (reference : ConstraintRef) (weight : α) (priority : Priority)
  | removeConstraint (reference : ConstraintRef)
  | removeVariable (index : Nat)
  | setCost (cost : α) (index : Nat)
  | solve (effort : Effort)

namespace Operation

variable {α : Type} [Scalar α]

def forEffect {ε σ β : Type} (action : EStateM ε σ β) : EStateM ε σ Unit := do
  let _ ← action
  pure ()

def perform : Operation α → Model.Action α Unit
  | setOptions options => modify fun model => { model with options := options }
  | minimise => modify Model.minimise
  | maximise => modify Model.maximise
  | addVariable declaration => forEffect (Model.addVariable declaration)
  | atMost rhs => forEffect (Model.atMost rhs)
  | atLeast rhs => forEffect (Model.atLeast rhs)
  | equal rhs => forEffect (Model.equal rhs)
  | addTerm reference coefficient index => Model.addTerm reference coefficient index
  | setCoefficient reference coefficient index => Model.setCoefficient reference coefficient index
  | setRhs reference rhs => Model.setRhs reference rhs
  | relax reference weight priority => forEffect (Model.relax reference weight priority)
  | removeConstraint reference => Model.removeConstraint reference
  | removeVariable index => Model.removeVariable index
  | setCost cost index => Model.setCost cost index
  | solve effort => forEffect (Model.solve effort)

/-- The model that an operation leaves behind, whether it succeeds or not. -/
def result (operation : Operation α) (model : Model α) : Model α :=
  finalState (operation.perform model)

def after (model : Model α) (operations : List (Operation α)) : Model α :=
  operations.foldl (fun model operation => operation.result model) model

/-- Something holds of every operation of a run and the model it is carried out on. -/
def Along (holds : Model α → Operation α → Prop) : Model α → List (Operation α) → Prop
  | _, [] => True
  | model, operation :: rest => holds model operation ∧ Along holds (operation.result model) rest

instance decidableAlong {holds : Model α → Operation α → Prop}
    [∀ model operation, Decidable (holds model operation)] (model : Model α)
    (operations : List (Operation α)) : Decidable (Along holds model operations) :=
  match operations with
  | [] => .isTrue trivial
  | operation :: rest =>
    have : Decidable (Along holds (operation.result model) rest) := decidableAlong _ rest
    inferInstanceAs (Decidable (holds model operation ∧ Along holds (operation.result model) rest))

/-- What every operation of a run preserves, holds in the end. -/
theorem invariant_after (kept : Model α → Prop) {holds : Model α → Operation α → Prop}
    (hstep : ∀ model operation, kept model → holds model operation →
      kept (operation.result model))
    {model : Model α} {operations : List (Operation α)} (hrun : Along holds model operations)
    (hmodel : kept model) : kept (after model operations) := by
  induction operations generalizing model with
  | nil => exact hmodel
  | cons operation rest ih =>
    obtain ⟨hfirst, hrest⟩ := hrun
    exact ih hrest (hstep model operation hmodel hfirst)

/-- What every operation preserves without condition, holds after every run. -/
theorem preserved_after (kept : Model α → Prop)
    (hstep : ∀ (model : Model α) (operation : Operation α), kept model →
      kept (operation.result model))
    (operations : List (Operation α)) {model : Model α} (hmodel : kept model) :
    kept (after model operations) := by
  induction operations generalizing model with
  | nil => exact hmodel
  | cons operation rest ih => exact ih (hstep model operation hmodel)

theorem forEffect_eq {ε σ β : Type} (action : EStateM ε σ β) (state : σ) :
    forEffect action state =
      match action state with
      | .ok _ state' => .ok () state'
      | .error fault state' => .error fault state' := by
  cases hcase : action state with
  | ok result state' => exact bind_of_ok hcase
  | error fault state' => exact bind_of_error hcase

theorem finalState_forEffect {ε σ β : Type} (action : EStateM ε σ β) (state : σ) :
    finalState (forEffect action state) = finalState (action state) := by
  rw [forEffect_eq]
  cases action state <;> rfl

theorem ends_forEffect {ε σ β : Type} {action : EStateM ε σ β} {state : σ}
    {post : σ → Prop} {failed : ε → σ → Prop}
    (h : Ends (action state) (fun _ => post) failed) :
    Ends (forEffect action state) (fun _ => post) failed := by
  rw [forEffect_eq]
  cases hcase : action state with
  | ok result state' => rw [hcase] at h; exact h
  | error fault state' => rw [hcase] at h; exact h

/-! ## Restrictions on runs -/

def isRemoval : Operation α → Bool
  | removeConstraint _ => true
  | removeVariable _ => true
  | _ => false

def isSolve : Operation α → Bool
  | solve _ => true
  | _ => false

end Operation

/-- Whether a variable could not be brought into the basis or out of it. -/
def Cause.isStuck : Cause → Bool
  | .cannotEnter _ => true
  | .cannotLeave _ => true
  | _ => false

/-! ## The pivots of an operation -/

namespace Model

variable {α : Type} [Scalar α]

/-- What is listed for one item after the other, each at the model that the items
before it left behind. -/
def pivotsOver {β : Type} (step : β → Action α Unit)
    (pivots : β → Model α → List (PivotEvent α)) : List β → Model α → List (PivotEvent α)
  | [], _ => []
  | item :: rest, model => pivots item model ++
    match step item model with
    | .ok _ model' => pivotsOver step pivots rest model'
    | .error _ _ => []

/-- The difference that gives a variable a coefficient in a constraint. -/
def differenceTo (constraint : Constraint α) (index : Nat) (coefficient : α) : α :=
  match constraint.coefficientOf? index with
  | some present => coefficient - present
  | none => coefficient

def coefficientPivots (coefficient : α) (index slack : Nat) (model : Model α) :
    List (PivotEvent α) :=
  match model.constraint? slack with
  | none => []
  | some constraint =>
    if model.isLoaded && differenceTo constraint index coefficient != 0 then
      model.tableau.discardSearch.enteringPivots slack
    else []

def termPivots (coefficient : α) (index slack : Nat) (model : Model α) : List (PivotEvent α) :=
  match model.constraint? slack with
  | none => []
  | some constraint =>
    coefficientPivots ((constraint.coefficientOf? index).getD 0 + coefficient) index slack model

def relaxationPivots (relaxation slack : Nat) (model : Model α) : List (PivotEvent α) :=
  match model.constraint? slack with
  | none => []
  | some constraint =>
    coefficientPivots (if constraint.isUpperBound then -1 else 1) relaxation slack model

def variablePivots (index : Nat) (model : Model α) : List (PivotEvent α) :=
  if model.indices.contains index && model.isLoaded then
    model.tableau.discardSearch.leavingPivots index
  else []

/-- The pivot that takes the relaxation of a constraint out of the basis, once the
constraint has been removed. -/
def droppedPivots (indices : List Nat) (constraint : Constraint α) :
    EStateM.Result Fault (Tableau α) Unit → List (PivotEvent α)
  | .ok _ tableau =>
    match constraint.relaxation with
    | some relaxation =>
      if indices.contains relaxation then tableau.leavingPivots relaxation else []
    | none => []
  | .error _ _ => []

/-- The pivots before one inequality and its relaxation variable are removed. -/
def inequalityPivots (slack : Nat) (model : Model α) : List (PivotEvent α) :=
  match model.constraint? slack with
  | none => []
  | some constraint =>
    if model.isLoaded then
      model.tableau.discardSearch.enteringPivots slack ++
        droppedPivots model.indices constraint (Tableau.removeConstraint slack model.tableau)
    else []

def relaxationDeclaration (model : Model α) (weight : α) (priority : Priority) :
    Declaration α where
  cost := if model.minimises then weight else -weight
  name := some s!"r{model.nextRelaxation}"
  isInteger := false
  isFree := false
  priority := priority

/-- The model that a relaxation has numbered. -/
def numbered {β : Type} (model : Model β) : Model β :=
  { model with nextRelaxation := model.nextRelaxation + 1 }

/-- The model that a solve works on: loaded first, if need be. -/
def ready (model : Model α) : Model α :=
  if model.isLoaded then model else finalState (load model)

/-- The pivots of the first relaxation of a solve. -/
def solvePivots (effort : Effort) (model : Model α) : List (PivotEvent α) :=
  Tableau.simplexPivots effort (model.ready.tableau.readied model.ready.searchSpace)

end Model

def Operation.pivots {α : Type} [Scalar α] (model : Model α) :
    Operation α → List (PivotEvent α)
  | addTerm reference coefficient index =>
    Model.pivotsOver
      (fun slack => do
        let constraint ← Model.inequality slack
        let present := (constraint.coefficientOf? index).getD 0
        Model.setInequalityCoefficient slack (present + coefficient) index)
      (Model.termPivots coefficient index) reference.slacks model
  | setCoefficient reference coefficient index =>
    Model.pivotsOver (fun slack => Model.setInequalityCoefficient slack coefficient index)
      (Model.coefficientPivots coefficient index) reference.slacks model
  | relax reference weight priority =>
    if priority.isRequired then []
    else
      match Model.addVariable (model.relaxationDeclaration weight priority) model.numbered with
      | .ok relaxation model =>
        Model.pivotsOver (Model.relaxInequality relaxation) (Model.relaxationPivots relaxation)
          reference.slacks model
      | .error _ _ => []
  | removeConstraint reference =>
    Model.pivotsOver Model.removeInequality Model.inequalityPivots reference.slacks model
  | removeVariable index => Model.variablePivots index model
  | solve effort => Model.solvePivots effort model
  | _ => []

end MixedInteger
