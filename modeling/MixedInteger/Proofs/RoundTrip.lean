import MixedInteger.Proofs.Refinement
import MixedInteger.Proofs.Verdicts

/-!
# Solutions of models

The values of the final basis of a solve meet the constraints of the model, up to the
precision, exactly if no row of the final tableau is violated.  Phase one sees to that,
and so does every pivot of phase two with a complete ratio test.  The ratio test passes
over rows that are reached within the precision, and then a solution that counts as
feasible can break a constraint by any amount.
-/

namespace MixedInteger

def Constraint.IsMetWithin (constraint : Constraint Rat) (margin : Rat) (x : Nat → Rat) : Prop :=
  constraint.sign * constraint.valueAt x ≤ constraint.sign * constraint.rhs + margin

instance (constraint : Constraint Rat) (margin : Rat) (x : Nat → Rat) :
    Decidable (constraint.IsMetWithin margin x) :=
  inferInstanceAs (Decidable (_ ≤ _))

theorem Constraint.Holds.isMetWithin_iff {constraint : Constraint Rat} {x : Nat → Rat}
    (h : constraint.Holds x) {margin : Rat} :
    constraint.IsMetWithin margin x ↔ -margin ≤ x constraint.slack := by
  rw [IsMetWithin, ← h]
  constructor
  · intro hmet
    linarith
  · intro hslack
    linarith

namespace Tableau

variable {t t' : Tableau Rat}

/-- The violated rows do not depend on the values that were written back. -/
theorem SameView.violatedRow? (h : SameView Variable.traits t t') :
    t'.violatedRow? = t.violatedRow? := by
  have hfree : t'.isFree = t.isFree := by
    funext index
    cases index with
    | none => rfl
    | some index => rw [isFree_eq, character?_of_traits? (h.view_eq index), ← isFree_eq]
  rw [Tableau.violatedRow?, Tableau.violatedRow?, h.dictionary, h.precision, hfree]

theorem isFeasible_updateValues (t : Tableau Rat) (indices : List Nat) :
    (t.updateValues indices).isFeasible = t.isFeasible := by
  rw [updateValues_eq]

/-- Restricted variables count as non-negative if no row is violated. -/
theorem neg_precision_le_valueOf (h : t.dictionary.IsConsistent) (hprecision : 0 ≤ t.precision)
    (hviolated : t.violatedRow? = none) {index : Nat}
    (hrestricted : t.isFree (some index) = false) :
    -t.precision ≤ t.dictionary.valueOf index := by
  rw [Dictionary.valueOf]
  cases hrow : t.dictionary.row? index with
  | none => exact neg_nonpos.2 hprecision
  | some r =>
    obtain ⟨hr, hindex⟩ := h.row?_eq_some_iff.1 hrow
    rw [← hindex] at hrestricted
    exact violatedRow?_eq_none_iff.1 hviolated r ⟨hr, hrestricted⟩

theorem violatedRow?_eq_none_of_valueOf (h : t.dictionary.IsConsistent)
    (hvalues : ∀ index, t.dictionary.Mentions index → t.isFree (some index) = false →
      -t.precision ≤ t.dictionary.valueOf index) :
    t.violatedRow? = none := by
  rw [violatedRow?_eq_none_iff]
  intro r hr
  obtain ⟨index, hindex⟩ := h.hasBasis.exists_basicAt hr.1
  have hrow : t.dictionary.row? index = some r := h.row?_eq_some_iff.2 ⟨hr.1, hindex⟩
  have hrestricted : t.isFree (some index) = false := by
    rw [← hindex]
    exact hr.2
  have hvalue := hvalues index (.inl (by rw [hrow]; rfl)) hrestricted
  rw [Dictionary.valueOf, hrow] at hvalue
  exact hvalue

end Tableau

namespace Model

variable {model : Model Rat}

/-- The constraints and the restrictions of the variables are met up to a margin. -/
def IsMetWithin (model : Model Rat) (margin : Rat) (x : Nat → Rat) : Prop :=
  (∀ constraint ∈ model.constraints.values, constraint.IsMetWithin margin x) ∧
    ∀ index ∈ model.indices, model.tableau.isFree (some index) = false → -margin ≤ x index

instance (model : Model Rat) (margin : Rat) (x : Nat → Rat) :
    Decidable (model.IsMetWithin margin x) :=
  inferInstanceAs (Decidable (_ ∧ _))

theorem Fits.exists_of_mem_keys {t : Tableau Rat} (h : model.Fits t) {slack : Nat}
    (hslack : slack ∈ model.constraints.keys) :
    ∃ constraint ∈ model.constraints.values, constraint.slack = slack := by
  obtain ⟨entry, hentry, rfl⟩ := List.mem_map.1 hslack
  exact ⟨entry.2, List.mem_map_of_mem hentry, (h.constraint_fits entry hentry).slack_eq⟩

theorem Fits.slack_mem_keys {t : Tableau Rat} (h : model.Fits t) {constraint : Constraint Rat}
    (hconstraint : constraint ∈ model.constraints.values) :
    constraint.slack ∈ model.constraints.keys := by
  obtain ⟨entry, hentry, rfl⟩ := List.mem_map.1 hconstraint
  rw [(h.constraint_fits entry hentry).slack_eq]
  exact List.mem_map_of_mem hentry

/-- The basic solution meets the model up to the precision if no row is violated, and only
then. -/
theorem IsQuiet.isMetWithin_iff (h : model.IsQuiet) (hloaded : model.isLoaded = true)
    (hprecision : 0 ≤ model.tableau.precision)
    (hdenotes : model.tableau.dictionary.Denotes model) :
    model.IsMetWithin model.tableau.precision model.tableau.dictionary.valueOf ↔
      model.tableau.violatedRow? = none := by
  have hsound := h.sound hloaded
  have hconsistent := hsound.consistent
  have hholds : model.Solves model.tableau.dictionary.valueOf :=
    (hdenotes.satisfies_iff _).1 (Dictionary.satisfies_valueOf hconsistent.hasBasis.toIsNamed)
  constructor
  · rintro ⟨hconstraints, hvariables⟩
    apply Tableau.violatedRow?_eq_none_of_valueOf hconsistent
    intro index hmentions hrestricted
    rcases (h.known_iff index).1 ((hsound.mentions_iff index).1 hmentions) with hdeclared | hslack
    · exact hvariables index hdeclared hrestricted
    · obtain ⟨constraint, hconstraint, rfl⟩ := h.exists_of_mem_keys hslack
      exact (hholds constraint hconstraint).isMetWithin_iff.1 (hconstraints constraint hconstraint)
  · intro hviolated
    constructor
    · intro constraint hconstraint
      rw [(hholds constraint hconstraint).isMetWithin_iff]
      apply Tableau.neg_precision_le_valueOf hconsistent hprecision hviolated
      exact h.slack_restricted (h.slack_mem_keys hconstraint)
    · intro index _ hrestricted
      exact Tableau.neg_precision_le_valueOf hconsistent hprecision hviolated hrestricted

/-- Without integer variables a solve is a run of the simplex method. -/
theorem solve_eq_ok (h : model.IsSound) (hintegers : model.integers = []) {effort : Effort}
    {solution : Solution Rat} {model' : Model Rat}
    (hsolve : solve effort model = .ok solution model') :
    ∃ t', Tableau.simplex effort (model.ready.tableau.readied model.ready.searchSpace) =
        .ok () t' ∧ solution.isFeasible = t'.isFeasible ∧
      model' = { model.ready with tableau := t'.updateValues model.ready.indices } := by
  obtain ⟨honTableau, -, -, hsame⟩ := solve_eq h effort
  have hnone : model.ready.searchSpace.integers = [] := by
    rw [hsame]
    exact hintegers
  rw [honTableau, onTableau, Tableau.solve_of_no_integers hnone] at hsolve
  cases hsimplex :
      Tableau.simplex effort (model.ready.tableau.readied model.ready.searchSpace) with
  | error fault t' =>
    rw [hsimplex] at hsolve
    exact absurd hsolve (by simp)
  | ok result t' =>
    rw [hsimplex] at hsolve
    injection hsolve with hsolution hmodel'
    refine ⟨t', rfl, ?_, hmodel'.symm⟩
    rw [← hsolution]
    exact Tableau.isFeasible_updateValues t' _

variable {precision : Rat} {effort : Effort} {solution : Solution Rat} {model' : Model Rat}

theorem solve_isQuiet (h : model.IsInStep precision) (hintegers : model.integers = [])
    (hsolve : solve effort model = .ok solution model')
    (hexact : ∀ event ∈ solvePivots effort model,
      event.before.dictionary.PivotExact event.row event.column) :
    model'.IsQuiet ∧ model'.IsCurrent precision ∧ model'.isLoaded = true := by
  have hsound := solve_sound h.1 effort (AvoidsCuts.rootCuts_eq_zero (.inr hintegers) h.1 effort)
  have hcurrent := solve_current h (.inr hintegers) effort hexact
  rw [hsolve] at hsound hcurrent
  obtain ⟨-, -, hloaded, -⟩ := solve_eq h.1 effort
  obtain ⟨t', hsimplex, -, hmodel'⟩ := solve_eq_ok h.1 hintegers hsolve
  have hframe := (Tableau.simplex_onlyPivots effort
    (model.ready.tableau.readied model.ready.searchSpace)).1
  rw [hsimplex] at hframe
  have hsnapshot : model'.tableau.snapshot = none := by
    rw [hmodel']
    exact (Tableau.sameView_updateValues t' model.ready.indices).snapshot.trans hframe.snapshot
  have hquiet : model'.quiet.IsQuiet := hsound.isQuiet
  rw [quiet_eq hsnapshot] at hquiet
  refine ⟨hquiet, hcurrent, ?_⟩
  rw [hmodel']
  exact hloaded

/-- A solve without a careless pivot that reports a feasible model has no violated row. -/
theorem violatedRow?_of_solve (h : model.IsInStep precision) (hintegers : model.integers = [])
    (hsolve : solve effort model = .ok solution model')
    (hpivots : ∀ event ∈ solvePivots effort model,
      event.before.dictionary.PivotExact event.row event.column ∧
        ¬ event.before.IsCareless event.row event.column)
    (hfeasible : solution.isFeasible = true) : model'.tableau.violatedRow? = none := by
  obtain ⟨-, hready, hloaded, -⟩ := solve_eq h.1 effort
  obtain ⟨t', hsimplex, hverdict, rfl⟩ := solve_eq_ok h.1 hintegers hsolve
  have hbasis : (model.ready.tableau.readied model.ready.searchSpace).dictionary.HasBasis :=
    (hready.isQuiet.sound hloaded).consistent.hasBasis
  have hcertified := Tableau.simplex_certified hbasis
    (ready_current h).quiet.tableau_precision_nonneg hpivots hsimplex
  rw [(Tableau.sameView_updateValues t' model.ready.indices).violatedRow?]
  cases hcertified with
  | infeasible hinfeasible =>
    rw [hfeasible, hinfeasible] at hverdict
    exact absurd hverdict (by simp)
  | optimal _ _ hviolated => exact hviolated
  | unbounded _ _ hviolated => exact hviolated

end Model

namespace Operation

/-- After a faithful run and a solve without integer variables, the values of the final
basis meet the model up to the precision exactly if no row of the tableau is violated.
If the solve reports a feasible model and none of its pivots was careless, this is so. -/
theorem isMetWithin_after_solve (precision : Rat) (hprecision : 0 ≤ precision)
    (options : Options Rat) (operations : List (Operation Rat))
    (hrun : Along Faithful (Model.empty precision options) operations) (model model' : Model Rat)
    (hmodel : model = after (Model.empty precision options) operations)
    (hintegers : model.integers = []) (effort : Effort) (solution : Solution Rat)
    (hsolve : Model.solve effort model = .ok solution model')
    (hexact : ∀ event ∈ Model.solvePivots effort model,
      event.before.dictionary.PivotExact event.row event.column) :
    (model'.IsMetWithin precision model'.tableau.dictionary.valueOf ↔
        model'.tableau.violatedRow? = none) ∧
      (solution.isFeasible = true →
        (∀ event ∈ Model.solvePivots effort model,
          ¬ event.before.IsCareless event.row event.column) →
        model'.IsMetWithin precision model'.tableau.dictionary.valueOf) := by
  have hstep : model.IsInStep precision := by
    rw [hmodel]
    exact isInStep_after hprecision hrun
  obtain ⟨hquiet, hcurrent, hloaded⟩ := Model.solve_isQuiet hstep hintegers hsolve hexact
  have hmet := hquiet.isMetWithin_iff hloaded hcurrent.tableau_precision_nonneg
    (hcurrent.denotes_of_quiet hquiet.snapshot_eq hloaded)
  rw [hcurrent.precision_eq] at hmet
  refine ⟨hmet, ?_⟩
  intro hfeasible hcareful
  rw [hmet]
  exact Model.violatedRow?_of_solve hstep hintegers hsolve
    (fun event hevent => ⟨hexact event hevent, hcareful event hevent⟩) hfeasible

/-- One variable is to be large, under two bounds. -/
def boundedRun (weight : Rat) : List (Operation Rat) :=
  [.maximise,
    .addVariable ⟨1, none, false, false, .required⟩,
    .atMost 1,
    .addTerm (.inequality 1) weight 0,
    .atMost 5,
    .addTerm (.inequality 2) 1 0]

theorem isMetWithin_after_boundedRun :
    ∃ solution model', Model.solve ⟨8, 0, 8, fun _ => 0⟩
        (after (Model.empty 1e-9 Options.standard) (boundedRun 4)) = .ok solution model' ∧
      solution.isFeasible = true ∧
        model'.IsMetWithin 1e-9 model'.tableau.dictionary.valueOf := by
  have hends : Ends (Model.solve ⟨8, 0, 8, fun _ => 0⟩
      (after (Model.empty 1e-9 Options.standard) (boundedRun 4)))
        (fun solution _ => solution.isFeasible = true) fun _ _ => False := by
    decide +kernel
  obtain ⟨solution, model', hsolve, hfeasible⟩ := hends.exists_ok
  have hseparated : ∀ event ∈ Model.solvePivots ⟨8, 0, 8, fun _ => 0⟩
      (after (Model.empty 1e-9 Options.standard) (boundedRun 4)), event.before.IsSeparated := by
    decide +kernel
  have hresult := isMetWithin_after_solve 1e-9 (by decide +kernel) Options.standard (boundedRun 4)
    (by decide +kernel) _ model' rfl (by decide +kernel) _ solution hsolve
    (fun event hevent => (hseparated event hevent).pivotExact _ _)
  exact ⟨solution, model', hsolve, hfeasible,
    hresult.2 hfeasible fun event hevent => (hseparated event hevent).not_isCareless⟩

/-- With a large weight the first bound is reached within the precision, and the ratio
test passes it over. -/
theorem not_isMetWithin_after_boundedRun :
    Along Faithful (Model.empty 1e-9 Options.standard) (boundedRun 10000000000) ∧
      (∀ event ∈ Model.solvePivots ⟨8, 0, 8, fun _ => 0⟩
          (after (Model.empty 1e-9 Options.standard) (boundedRun 10000000000)),
        event.before.dictionary.PivotExact event.row event.column) ∧
      Ends (Model.solve ⟨8, 0, 8, fun _ => 0⟩
          (after (Model.empty 1e-9 Options.standard) (boundedRun 10000000000)))
        (fun solution model' => solution.isFeasible = true ∧ solution.isBounded = true ∧
          model'.integers = [] ∧ model'.tableau.dictionary.valueOf 0 = 5 ∧
          ¬ model'.IsMetWithin 1e-9 model'.tableau.dictionary.valueOf)
        fun _ _ => False := by
  decide +kernel

end Operation

end MixedInteger
