import MixedInteger.Proofs.BasisInvariant

/-!
# Models before a solve

A model whose tableau has not been built yet, or has to be built anew, has no tableau to keep
in step with: every operation other than a solve changes what is declared and nothing else, and
none of them gets stuck.  In the tableau it registers variables, forgets them and changes what
is known about them, so whatever survives these notes holds until the next solve.  Whatever a
caller does before the first solve, the model is sound.
-/

namespace MixedInteger

variable {α : Type}

/-- What is noted about variables does not matter, as long as they stay of their kind and a
forgotten one has no place. -/
structure Tableau.SurvivesNotes (kept : Tableau α → Prop) : Prop where
  register : ∀ {t : Tableau α} {make : Nat → Variable α}, (∀ index, (make index).index = index) →
    kept t → kept (t.register make).2
  release : ∀ {t : Tableau α} (index : Nat), kept t → kept (t.release index)
  of_sameView : ∀ {t t' : Tableau α}, Tableau.SameView Variable.character t t' → kept t → kept t'

theorem Tableau.survivesNotes_precision (precision : α) :
    SurvivesNotes fun t => t.precision = precision :=
  ⟨fun _ h => h, fun _ h => h, fun hview h => hview.precision.trans h⟩

namespace Model

/-- A model whose tableau has yet to be built, and what holds of the one it has meanwhile. -/
structure IsUnbuilt (kept : Tableau α → Prop) (model : Model α) : Prop where
  isLoaded_eq : model.isLoaded = false
  tableau_kept : kept model.tableau
  snapshot_eq : model.tableau.snapshot = none

/-- A fault of an operation on such a model. -/
structure IsUnbuiltFault (kept : Tableau α → Prop) (fault : Fault) (model : Model α) : Prop where
  not_stuck : fault.cause.isStuck = false
  unbuilt : model.IsUnbuilt kept

section Steps

variable {kept : Tableau α → Prop} {model : Model α} {index slack : Nat}

theorem IsUnbuilt.quiet (h : model.IsUnbuilt kept) : model.quiet.IsUnbuilt kept := by
  rw [quiet_eq h.snapshot_eq]
  exact h

theorem requireVariable_unbuilt (h : model.IsUnbuilt kept) (index : Nat) :
    Ends (requireVariable index model) (fun _ => IsUnbuilt kept) (IsUnbuiltFault kept) := by
  by_cases hindex : index ∈ model.indices
  · rw [requireVariable_of_mem hindex]
    exact h
  · rw [requireVariable_of_not_mem hindex]
    exact ⟨rfl, h⟩

variable [Scalar α]

theorem setInequalityCoefficient_unbuilt (h : model.IsUnbuilt kept) (slack : Nat)
    (coefficient : α) (index : Nat) :
    Ends (setInequalityCoefficient slack coefficient index model)
      (fun _ => IsUnbuilt kept) (IsUnbuiltFault kept) := by
  cases hconstraint : model.constraint? slack with
  | none =>
    rw [setInequalityCoefficient_of_none hconstraint]
    exact ⟨rfl, h.quiet⟩
  | some constraint =>
    rw [setInequalityCoefficient_of_some hconstraint, h.isLoaded_eq, Bool.false_and,
      if_neg (by simp)]
    exact ⟨h.isLoaded_eq, h.quiet.tableau_kept, rfl⟩

theorem setInequalityRhs_unbuilt (h : model.IsUnbuilt kept) (slack : Nat) (rhs : α) :
    Ends (setInequalityRhs slack rhs model) (fun _ => IsUnbuilt kept) (IsUnbuiltFault kept) := by
  cases hconstraint : model.constraint? slack with
  | none =>
    rw [setInequalityRhs_of_none hconstraint]
    exact ⟨rfl, h.quiet⟩
  | some constraint =>
    rw [setInequalityRhs_of_some hconstraint, h.isLoaded_eq, Bool.false_and, if_neg (by simp)]
    exact ⟨h.isLoaded_eq, h.quiet.tableau_kept, rfl⟩

theorem addTerm_unbuilt (h : model.IsUnbuilt kept) (reference : ConstraintRef)
    (coefficient : α) (index : Nat) :
    Ends (addTerm reference coefficient index model) (fun _ => IsUnbuilt kept)
      (IsUnbuiltFault kept) := by
  apply Ends.bind (requireVariable_unbuilt h index)
  intro _ model' hmodel'
  apply Ends.forM _ (IsUnbuilt kept) _ _ _ model' hmodel'
  intro slack _ model'' hmodel''
  cases hconstraint : model''.constraint? slack with
  | none =>
    rw [bind_of_error (inequality_of_none hconstraint)]
    exact ⟨rfl, hmodel''⟩
  | some constraint =>
    rw [bind_of_ok (inequality_of_some hconstraint)]
    exact setInequalityCoefficient_unbuilt hmodel'' slack _ index

theorem setCoefficient_unbuilt (h : model.IsUnbuilt kept) (reference : ConstraintRef)
    (coefficient : α) (index : Nat) :
    Ends (setCoefficient reference coefficient index model) (fun _ => IsUnbuilt kept)
      (IsUnbuiltFault kept) := by
  apply Ends.bind (requireVariable_unbuilt h index)
  intro _ model' hmodel'
  apply Ends.forM _ (IsUnbuilt kept) _ _ _ model' hmodel'
  intro slack _ model'' hmodel''
  exact setInequalityCoefficient_unbuilt hmodel'' slack coefficient index

theorem setRhs_unbuilt (h : model.IsUnbuilt kept) (reference : ConstraintRef) (rhs : α) :
    Ends (setRhs reference rhs model) (fun _ => IsUnbuilt kept) (IsUnbuiltFault kept) := by
  apply Ends.forM _ (IsUnbuilt kept) _ _ _ model h
  intro slack _ model' hmodel'
  exact setInequalityRhs_unbuilt hmodel' slack rhs

theorem relaxInequality_unbuilt (h : model.IsUnbuilt kept) (relaxation slack : Nat) :
    Ends (relaxInequality relaxation slack model) (fun _ => IsUnbuilt kept)
      (IsUnbuiltFault kept) := by
  unfold relaxInequality
  cases hconstraint : model.constraint? slack with
  | none =>
    rw [bind_of_error (inequality_of_none hconstraint)]
    exact ⟨rfl, h⟩
  | some constraint =>
    rw [bind_of_ok (inequality_of_some hconstraint)]
    apply Ends.bind (setInequalityCoefficient_unbuilt h slack _ relaxation)
    intro _ model' hmodel'
    exact ⟨hmodel'.isLoaded_eq, hmodel'.tableau_kept, hmodel'.snapshot_eq⟩

section Notes

variable (hkept : Tableau.SurvivesNotes kept)

include hkept

theorem addVariable_unbuilt (h : model.IsUnbuilt kept) (declaration : Declaration α) :
    Ends (addVariable declaration model) (fun _ => IsUnbuilt kept) (IsUnbuiltFault kept) := by
  have hunloaded : ¬ model.quiet.isLoaded = true := by simp [h.quiet.isLoaded_eq]
  rw [addVariable_eq, withVariable, if_neg hunloaded]
  exact ⟨h.isLoaded_eq, hkept.register (fun _ => rfl) h.quiet.tableau_kept, rfl⟩

theorem addInequality_unbuilt (h : model.IsUnbuilt kept) (rhs : α) (isUpperBound : Bool) :
    Ends (addInequality rhs isUpperBound model) (fun _ => IsUnbuilt kept)
      (IsUnbuiltFault kept) := by
  have hunloaded : ¬ model.quiet.isLoaded = true := by simp [h.quiet.isLoaded_eq]
  rw [addInequality_eq, withInequality, if_neg hunloaded]
  exact ⟨h.isLoaded_eq, hkept.register (fun _ => rfl) h.quiet.tableau_kept, rfl⟩

theorem equal_unbuilt (h : model.IsUnbuilt kept) (rhs : α) :
    Ends (equal rhs model) (fun _ => IsUnbuilt kept) (IsUnbuiltFault kept) := by
  apply Ends.bind (addInequality_unbuilt hkept h rhs true)
  intro _ model' hmodel'
  apply Ends.bind (addInequality_unbuilt hkept hmodel' rhs false)
  intro _ model'' hmodel''
  exact hmodel''

theorem relax_unbuilt (h : model.IsUnbuilt kept) (reference : ConstraintRef) (weight : α)
    (priority : Priority) :
    Ends (relax reference weight priority model) (fun _ => IsUnbuilt kept)
      (IsUnbuiltFault kept) := by
  unfold relax
  split
  · exact h
  · have hnumbered : model.numbered.IsUnbuilt kept :=
      ⟨h.isLoaded_eq, h.tableau_kept, h.snapshot_eq⟩
    apply Ends.bind (addVariable_unbuilt hkept hnumbered _)
    intro relaxation model' hmodel'
    apply Ends.bind (Ends.forM _ (IsUnbuilt kept) _ _ (fun slack _ _ hmodel'' =>
      relaxInequality_unbuilt hmodel'' relaxation slack) model' hmodel')
    intro _ model'' hmodel''
    exact hmodel''

theorem removeVariable_unbuilt (h : model.IsUnbuilt kept) (index : Nat) :
    Ends (removeVariable index model) (fun _ => IsUnbuilt kept) (IsUnbuiltFault kept) := by
  by_cases hindex : index ∈ model.indices
  · rw [removeVariable_of_mem hindex, h.isLoaded_eq, if_neg (by simp)]
    exact ⟨h.isLoaded_eq, hkept.release index h.quiet.tableau_kept, rfl⟩
  · have herror : removeVariable index model =
        .error (Cause.variableNotInModel index : Fault) model.quiet :=
      (bind_of_ok (discardSearch_eq model)).trans
        (bind_of_error (requireVariable_of_not_mem hindex))
    rw [herror]
    exact ⟨rfl, h.quiet⟩

theorem dropRelaxation_unbuilt (h : model.IsUnbuilt kept) (constraint : Constraint α) :
    Ends (dropRelaxation constraint model) (fun _ => IsUnbuilt kept) (IsUnbuiltFault kept) := by
  unfold dropRelaxation
  cases constraint.relaxation with
  | none => exact h
  | some relaxation =>
    simp only [bind, EStateM.bind, run_get]
    split
    · exact removeVariable_unbuilt hkept h relaxation
    · exact h

theorem removeInequality_unbuilt (h : model.IsUnbuilt kept) (slack : Nat) :
    Ends (removeInequality slack model) (fun _ => IsUnbuilt kept) (IsUnbuiltFault kept) := by
  cases hconstraint : model.constraint? slack with
  | none =>
    rw [removeInequality_of_none hconstraint]
    exact ⟨rfl, h.quiet⟩
  | some constraint =>
    have hdropped : IsUnbuilt kept { model.quiet.withoutConstraint slack with
        tableau := model.quiet.tableau.release slack } :=
      ⟨h.isLoaded_eq, hkept.release slack h.quiet.tableau_kept, rfl⟩
    rw [removeInequality_of_some hconstraint, h.isLoaded_eq, dropSlack, if_neg (by simp)]
    exact dropRelaxation_unbuilt hkept hdropped constraint

theorem removeConstraint_unbuilt (h : model.IsUnbuilt kept) (reference : ConstraintRef) :
    Ends (removeConstraint reference model) (fun _ => IsUnbuilt kept) (IsUnbuiltFault kept) := by
  apply Ends.forM _ (IsUnbuilt kept) _ _ _ model h
  intro slack _ model' hmodel'
  exact removeInequality_unbuilt hkept hmodel' slack

theorem setCost_unbuilt (h : model.IsUnbuilt kept) (cost : α) (index : Nat) :
    Ends (setCost cost index model) (fun _ => IsUnbuilt kept) (IsUnbuiltFault kept) := by
  by_cases hindex : index ∈ model.indices
  · cases hdata : model.quiet.tableau.lookup? index with
    | none =>
      unfold setCost
      rw [bind_of_ok (requireVariable_of_mem hindex), bind_of_ok (discardSearch_eq model),
        bind_of_ok (run_get model.quiet), hdata]
      exact ⟨rfl, h.quiet⟩
    | some data =>
      rw [setCost_of_mem hindex hdata, h.isLoaded_eq, Bool.false_and, if_neg (by simp)]
      have hview := sameView_withCost model.quiet index cost
      exact ⟨h.isLoaded_eq, hkept.of_sameView hview h.quiet.tableau_kept, rfl⟩
  · have herror : setCost cost index model =
        .error (Cause.variableNotInModel index : Fault) model :=
      bind_of_error (requireVariable_of_not_mem hindex)
    rw [herror]
    exact ⟨rfl, h⟩

/-- Another direction calls for a new tableau, also where there was one. -/
theorem setDirection_unbuilt_of_ne {minimises : Bool} (hne : model.minimises ≠ minimises)
    (h : kept model.quiet.tableau) : (model.setDirection minimises).IsUnbuilt kept := by
  have hview := sameView_negateRelaxationCosts
    { model.quiet with minimises := minimises, isLoaded := false }
  rw [setDirection, if_neg (by simpa using hne)]
  exact ⟨rfl, hkept.of_sameView hview h, hview.snapshot⟩

theorem setDirection_unbuilt (h : model.IsUnbuilt kept) (minimises : Bool) :
    (model.setDirection minimises).IsUnbuilt kept := by
  by_cases hsame : model.minimises = minimises
  · rw [setDirection, if_pos (by simpa using hsame)]
    exact h
  · exact setDirection_unbuilt_of_ne hkept hsame h.quiet.tableau_kept

end Notes

end Steps

end Model

namespace Operation

variable [Scalar α] {kept : Tableau α → Prop} {model : Model α} {operation : Operation α}

/-- Before a solve, no operation builds the tableau and none gets stuck. -/
theorem perform_unbuilt (hkept : Tableau.SurvivesNotes kept) (h : model.IsUnbuilt kept)
    (hsolve : operation.isSolve = false) :
    Ends (operation.perform model) (fun _ => Model.IsUnbuilt kept)
      (Model.IsUnbuiltFault kept) := by
  cases operation with
  | setOptions options => exact ⟨h.isLoaded_eq, h.tableau_kept, h.snapshot_eq⟩
  | minimise => exact Model.setDirection_unbuilt hkept h true
  | maximise => exact Model.setDirection_unbuilt hkept h false
  | addVariable declaration =>
    exact ends_forEffect (Model.addVariable_unbuilt hkept h declaration)
  | atMost rhs =>
    exact ends_forEffect
      (Ends.bind (Model.addInequality_unbuilt hkept h rhs true) fun _ _ h' => h')
  | atLeast rhs =>
    exact ends_forEffect
      (Ends.bind (Model.addInequality_unbuilt hkept h rhs false) fun _ _ h' => h')
  | equal rhs => exact ends_forEffect (Model.equal_unbuilt hkept h rhs)
  | addTerm reference coefficient index =>
    exact Model.addTerm_unbuilt h reference coefficient index
  | setCoefficient reference coefficient index =>
    exact Model.setCoefficient_unbuilt h reference coefficient index
  | setRhs reference rhs => exact Model.setRhs_unbuilt h reference rhs
  | relax reference weight priority =>
    exact ends_forEffect (Model.relax_unbuilt hkept h reference weight priority)
  | removeConstraint reference => exact Model.removeConstraint_unbuilt hkept h reference
  | removeVariable index => exact Model.removeVariable_unbuilt hkept h index
  | setCost cost index => exact Model.setCost_unbuilt hkept h cost index
  | solve effort => exact absurd hsolve (by simp [isSolve])

theorem result_unbuilt (hkept : Tableau.SurvivesNotes kept) (h : model.IsUnbuilt kept)
    (hsolve : operation.isSolve = false) : (operation.result model).IsUnbuilt kept :=
  ((perform_unbuilt hkept h hsolve).mono (fun _ _ hpost => hpost) fun _ _ hfault =>
    hfault.unbuilt).finalState

theorem unstuck_of_unbuilt (hkept : Tableau.SurvivesNotes kept) (h : model.IsUnbuilt kept)
    (hsolve : operation.isSolve = false) : operation.Unstuck model := by
  refine ⟨fun hsolve' => absurd (hsolve'.symm.trans hsolve) (by simp), ?_⟩
  intro _ fault model' herror
  have hends := perform_unbuilt hkept h hsolve
  rw [herror] at hends
  exact hends.not_stuck

/-- A model that was built by any operations other than solves is sound. -/
theorem isUnbuilt_after (precision : α) (options : Options α) {operations : List (Operation α)}
    (hsolves : ∀ operation ∈ operations, operation.isSolve = false) :
    (after (Model.empty precision options) operations).IsSound ∧
      (after (Model.empty precision options) operations).IsUnbuilt
        fun t => t.precision = precision := by
  have hkept := Tableau.survivesNotes_precision precision
  have hempty : (Model.empty precision options).IsSound :=
    (Model.empty_isQuiet precision options).isSound
  have hunbuilt : (Model.empty precision options).IsUnbuilt fun t => t.precision = precision :=
    ⟨rfl, rfl, rfl⟩
  generalize Model.empty precision options = model at hempty hunbuilt
  induction operations generalizing model with
  | nil => exact ⟨hempty, hunbuilt⟩
  | cons operation rest ih =>
    obtain ⟨hfirst, hrest⟩ := List.forall_mem_cons.1 hsolves
    exact ih hrest _ (result_sound hempty (unstuck_of_unbuilt hkept hunbuilt hfirst))
      (result_unbuilt hkept hunbuilt hfirst)

end Operation

end MixedInteger
