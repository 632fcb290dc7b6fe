import MixedInteger.Proofs.BasisInvariant
import MixedInteger.Proofs.Choices
import MixedInteger.Proofs.Denotation

/-!
# Edits refine a rebuild

A model that is edited in place stays true to its tableau: over the rationals, and as
long as no pivot mistakes a small entry for zero, the dictionary of a loaded model
denotes the model after every run of operations.  It therefore has the same meaning as
the dictionary that a rebuild would start from.
-/

namespace MixedInteger

theorem Dictionary.Denotes.of_readsThrough {d d' : Dictionary Rat} {model model' : Model Rat}
    {change : (Nat → Rat) → Nat → Rat} (h : d.Denotes model) (hreads : ReadsThrough change d d')
    (hsolves : ∀ x, model'.Solves x ↔ model.Solves (change x))
    (hobjective : ∀ x priority,
      model'.objectiveAt priority x = model.objectiveAt priority (change x)) :
    d'.Denotes model' := by
  have hchange (x : Nat → Rat) : d.Satisfies (change x) ↔ model'.Solves x :=
    (h.satisfies_iff (change x)).trans (hsolves x).symm
  constructor
  · intro x
    exact (hreads.satisfies_iff x).trans (hchange x)
  · intro x hx priority
    rw [hreads.objective_eq x ((hchange x).2 hx), h.objective_eq (change x) ((hsolves x).1 hx),
      hobjective]

namespace Model

variable {model : Model Rat} {precision : Rat} {slack index : Nat}

/-- The tableau is in step with the model, if it is loaded, once a pending search is
left. -/
structure IsCurrent (precision : Rat) (model : Model Rat) : Prop where
  precision_nonneg : 0 ≤ precision
  precision_eq : model.tableau.precision = precision
  denotes : model.isLoaded = true → model.quiet.tableau.dictionary.Denotes model.quiet

theorem IsCurrent.of_quiet (hnonneg : 0 ≤ precision) (hquiet : model.tableau.snapshot = none)
    (hprecision : model.tableau.precision = precision)
    (hdenotes : model.isLoaded = true → model.tableau.dictionary.Denotes model) :
    model.IsCurrent precision := by
  refine ⟨hnonneg, hprecision, ?_⟩
  rw [quiet_eq hquiet]
  exact hdenotes

theorem IsCurrent.tableau_precision_nonneg (h : model.IsCurrent precision) :
    0 ≤ model.tableau.precision := by
  rw [h.precision_eq]
  exact h.precision_nonneg

theorem IsCurrent.quiet (h : model.IsCurrent precision) : model.quiet.IsCurrent precision := by
  refine ⟨h.precision_nonneg, ?_, ?_⟩
  · exact (Tableau.precision_discardSearch model.tableau).trans h.precision_eq
  · have hsnapshot : model.quiet.tableau.snapshot = none := rfl
    rw [quiet_eq hsnapshot]
    exact h.denotes

theorem IsCurrent.denotes_of_quiet (h : model.IsCurrent precision)
    (hquiet : model.tableau.snapshot = none)
    (hloaded : model.isLoaded = true) : model.tableau.dictionary.Denotes model := by
  have hdenotes := h.denotes hloaded
  rw [quiet_eq hquiet] at hdenotes
  exact hdenotes

/-! ## New variables and constraints -/

theorem withVariable_current (h : model.IsQuiet) (hcurrent : model.IsCurrent precision)
    (declaration : Declaration Rat) : (model.withVariable declaration).IsCurrent precision := by
  apply IsCurrent.of_quiet hcurrent.precision_nonneg (h.withVariable declaration).snapshot_eq
  · have hprecision : (model.withVariable declaration).tableau.precision =
        model.tableau.precision := by
      rw [withVariable]
      simp only
      split <;> rfl
    exact hprecision.trans hcurrent.precision_eq
  · intro hloaded
    have hsound := h.sound hloaded
    have hdenotes := hcurrent.denotes_of_quiet h.snapshot_eq hloaded
    have hdictionary : (model.withVariable declaration).tableau.dictionary =
        Tableau.pushVariable model.tableau.dictionary model.tableau.pool.allocate.1
          declaration.priority (Tableau.orientCost model.minimises declaration.cost) :=
      congrArg Tableau.dictionary (if_pos hloaded)
    rw [hdictionary]
    constructor
    · intro x
      exact (Dictionary.satisfies_pushVariable hsound.consistent ..).trans
        (hdenotes.satisfies_iff x)
    · intro x hx priority
      rw [objectiveAt_withVariable h, ← hdenotes.objective_eq x hx]
      exact Dictionary.objectiveAt_pushVariable hsound.consistent hsound.not_mentions_allocate
        _ _ _

theorem withInequality_current (h : model.IsQuiet) (hcurrent : model.IsCurrent precision)
    (rhs : Rat)
    (isUpperBound : Bool) : (model.withInequality rhs isUpperBound).IsCurrent precision := by
  apply IsCurrent.of_quiet hcurrent.precision_nonneg (h.withInequality rhs isUpperBound).snapshot_eq
  · have hprecision : (model.withInequality rhs isUpperBound).tableau.precision =
        model.tableau.precision := by
      rw [withInequality]
      simp only
      split <;> rfl
    exact hprecision.trans hcurrent.precision_eq
  · intro hloaded
    have hsound := h.sound hloaded
    have hdenotes := hcurrent.denotes_of_quiet h.snapshot_eq hloaded
    have hdictionary : (model.withInequality rhs isUpperBound).tableau.dictionary =
        model.tableau.dictionary.pushRow model.tableau.pool.allocate.1
          (Tableau.slackRow model.tableau.dictionary isUpperBound rhs) :=
      congrArg Tableau.dictionary (if_pos hloaded)
    rw [hdictionary]
    constructor
    · intro x
      rw [Dictionary.satisfies_pushRow hsound.consistent, solves_withInequality h,
        hdenotes.satisfies_iff x,
        Dictionary.rowValue_slackRow hsound.consistent.columns_agree.size_pos]
    · intro x hx priority
      rw [objectiveAt_withInequality h,
        ← hdenotes.objective_eq x ((solves_withInequality h ..).1 hx).1]
      exact Dictionary.objectiveAt_pushRow hsound.consistent _ priority

/-! ## Changes of one inequality -/

/-- Another constraint under a slack, and a tableau that reads the slack
accordingly. -/
theorem withConstraint_current (h : model.IsQuiet) (hcurrent : model.IsCurrent precision)
    {constraint constraint' : Constraint Rat} (hsome : model.constraint? slack = some constraint)
    (value : (Nat → Rat) → Rat)
    (hholds : ∀ x, constraint'.Holds x ↔ constraint.Holds (Function.update x slack (value x)))
    (tableau : Tableau Rat) (hframe : Tableau.SameFrame model.tableau tableau)
    (hreads : model.isLoaded = true → Dictionary.ReadsThrough
      (fun x => Function.update x slack (value x)) model.tableau.dictionary tableau.dictionary) :
    IsCurrent precision { model.withConstraint slack constraint' with tableau := tableau } := by
  have hslack : slack ∈ model.constraints.keys := OrderedMap.mem_keys_of_get? hsome
  have hundeclared : slack ∉ model.indices := fun hmem => h.apart slack hmem hslack
  apply IsCurrent.of_quiet hcurrent.precision_nonneg
  · exact hframe.snapshot.trans h.snapshot_eq
  · exact hframe.precision.trans hcurrent.precision_eq
  · intro hloaded
    apply (hcurrent.denotes_of_quiet h.snapshot_eq hloaded).of_readsThrough (hreads hloaded)
    · intro x
      exact solves_withConstraint h.toFits hsome (hholds x)
    · intro x priority
      rw [objectiveAt_update hundeclared]
      refine objectiveAt_congr ?_ ?_ ?_ x
      · rfl
      · rfl
      · intro index _
        rw [Tableau.costIn, Tableau.costIn, hframe.lookup? index]

/-- A change that makes no difference. -/
theorem readsThrough_self {d : Dictionary Rat} {value : (Nat → Rat) → Rat}
    (hvalue : ∀ x, value x = x slack) :
    Dictionary.ReadsThrough (fun x => Function.update x slack (value x)) d d := by
  have hsame (x : Nat → Rat) : Function.update x slack (value x) = x := by
    rw [hvalue, Function.update_eq_self]
  constructor
  · intro x
    rw [hsame]
  · intro x _ priority
    rw [hsame]

/-- Pivots that bring a slack into the basis do so on an entry that is not zero. -/
theorem pivotKeeps_of_entering {t : Tableau Rat} (hprecision : 0 ≤ t.precision)
    (hexact : ∀ event ∈ t.enteringPivots slack,
      event.before.dictionary.PivotExact event.row event.column) :
    ∀ event ∈ t.enteringPivots slack,
      event.before.dictionary.PivotKeeps event.row event.column := by
  intro event hevent
  obtain ⟨hbefore, hentry⟩ := Tableau.entry_of_mem_enteringPivots hevent
  refine ⟨hexact event hevent, ?_⟩
  rw [hbefore]
  rw [scalar_abs_eq] at hentry
  exact abs_pos.1 (lt_of_le_of_lt hprecision hentry)

theorem pivotKeeps_of_leaving {t : Tableau Rat} (hprecision : 0 ≤ t.precision)
    (hexact : ∀ event ∈ t.leavingPivots index,
      event.before.dictionary.PivotExact event.row event.column) :
    ∀ event ∈ t.leavingPivots index,
      event.before.dictionary.PivotKeeps event.row event.column := by
  intro event hevent
  obtain ⟨hbefore, hentry⟩ := Tableau.entry_of_mem_leavingPivots hevent
  refine ⟨hexact event hevent, ?_⟩
  rw [hbefore]
  rw [scalar_abs_eq] at hentry
  exact abs_pos.1 (lt_of_le_of_lt hprecision hentry)

theorem setInequalityCoefficient_current (h : model.IsSound) (hcurrent : model.IsCurrent precision)
    (hindex : index ∈ model.indices) (slack : Nat) (coefficient : Rat)
    (hexact : ∀ event ∈ coefficientPivots coefficient index slack model,
      event.before.dictionary.PivotExact event.row event.column) :
    Ends (setInequalityCoefficient slack coefficient index model) (fun _ => IsCurrent precision)
      (fun _ _ => True) := by
  have hquiet := h.isQuiet
  have hcurrent' := hcurrent.quiet
  cases hconstraint : model.constraint? slack with
  | none =>
    rw [setInequalityCoefficient_of_none hconstraint]
    trivial
  | some constraint =>
    have hslack : slack ∈ model.constraints.keys := OrderedMap.mem_keys_of_get? hconstraint
    have hundeclared : slack ∉ model.indices := fun hmem => hquiet.apart slack hmem hslack
    have hfits : constraint.Fits model.indices slack :=
      hquiet.constraint_fits _ (OrderedMap.mem_of_get? hconstraint)
    have hwritten := withConstraint_current hquiet hcurrent' hconstraint _
      (Constraint.holds_setCoefficient hfits hundeclared index coefficient)
    rw [setInequalityCoefficient_of_some hconstraint]
    split
    · rename_i hchange
      have hloaded : model.quiet.isLoaded = true := (Bool.and_eq_true_iff.1 hchange).1
      have hne : slack ≠ index := by
        rintro rfl
        exact hundeclared hindex
      have hpivots : coefficientPivots coefficient index slack model =
          model.quiet.tableau.enteringPivots slack := by
        rw [coefficientPivots, hconstraint]
        exact if_pos hchange
      rw [hpivots] at hexact
      have hedit := Tableau.changeCoefficient_readsThrough (hquiet.sound hloaded)
        hquiet.snapshot_eq (hquiet.mentions hloaded (.inr hslack))
        (hquiet.mentions hloaded (.inl hindex)) hne constraint.isUpperBound
        (differenceTo constraint index coefficient)
        (pivotKeeps_of_entering hcurrent'.tableau_precision_nonneg hexact)
      apply ends_onTableau
      apply hedit.success
      · intro _ tableau hpost
        exact hwritten tableau hpost.1 fun _ => hpost.2
    · rename_i hchange
      apply hwritten _ (Tableau.SameFrame.refl _)
      intro hloaded
      have hzero : differenceTo constraint index coefficient = 0 := by
        have hloaded' : model.isLoaded = true := hloaded
        rw [hloaded'] at hchange
        simpa using hchange
      apply readsThrough_self
      intro x
      rw [hzero, Constraint.orientBound_eq, mul_zero, zero_mul, add_zero]

theorem setInequalityRhs_current (h : model.IsSound) (hcurrent : model.IsCurrent precision)
    (slack : Nat)
    (rhs : Rat) :
    Ends (setInequalityRhs slack rhs model) (fun _ => IsCurrent precision) (fun _ _ => True) := by
  have hquiet := h.isQuiet
  have hcurrent' := hcurrent.quiet
  cases hconstraint : model.constraint? slack with
  | none =>
    rw [setInequalityRhs_of_none hconstraint]
    trivial
  | some constraint =>
    have hslack : slack ∈ model.constraints.keys := OrderedMap.mem_keys_of_get? hconstraint
    have hundeclared : slack ∉ model.indices := fun hmem => hquiet.apart slack hmem hslack
    have hfits : constraint.Fits model.indices slack :=
      hquiet.constraint_fits _ (OrderedMap.mem_of_get? hconstraint)
    have hwritten := withConstraint_current hquiet hcurrent' hconstraint _
      (Constraint.holds_rhs hfits hundeclared rhs)
    rw [setInequalityRhs_of_some hconstraint]
    split
    · rename_i hchange
      have hloaded : model.quiet.isLoaded = true := (Bool.and_eq_true_iff.1 hchange).1
      obtain ⟨tableau, hedit, hframe, hreads⟩ := Tableau.changeRhs_readsThrough
        (hquiet.sound hloaded) hquiet.snapshot_eq (hquiet.mentions hloaded (.inr hslack))
        constraint.isUpperBound (rhs - constraint.rhs)
      have hedit' : Tableau.changeRhs slack constraint.isUpperBound (rhs - constraint.rhs)
          (model.quiet.withConstraint slack { constraint with rhs := rhs }).tableau =
            .ok () tableau := hedit
      rw [onTableau_of_ok hedit']
      exact hwritten tableau hframe fun _ => hreads
    · rename_i hchange
      apply hwritten _ (Tableau.SameFrame.refl _)
      intro hloaded
      have hzero : rhs - constraint.rhs = 0 := by
        have hloaded' : model.isLoaded = true := hloaded
        rw [hloaded'] at hchange
        simpa using hchange
      apply readsThrough_self
      intro x
      rw [hzero, Constraint.orientBound_eq, mul_zero, sub_zero]

/-! ## Changes of all inequalities behind a reference -/

/-- What one step of a walk keeps, as long as its pivots are in order, the walk
keeps. -/
theorem forM_pivotsOver (step : Nat → Action Rat Unit)
    (pivots : Nat → Model Rat → List (PivotEvent Rat)) (kept : Model Rat → Prop)
    {exact : PivotEvent Rat → Prop}
    (hstep : ∀ slack model, kept model → (∀ event ∈ pivots slack model, exact event) →
      Ends (step slack model) (fun _ => kept) (fun _ _ => True))
    (slacks : List Nat) (hkept : kept model)
    (hexact : ∀ event ∈ pivotsOver step pivots slacks model, exact event) :
    Ends (slacks.forM step model) (fun _ => kept) (fun _ _ => True) := by
  induction slacks generalizing model with
  | nil => exact hkept
  | cons slack rest ih =>
    rw [pivotsOver] at hexact
    have hfirst := hstep slack model hkept fun event hevent =>
      hexact event (List.mem_append_left _ hevent)
    cases houtcome : step slack model with
    | ok result model' =>
      rw [houtcome] at hfirst
      rw [forM_cons_of_ok houtcome]
      apply ih hfirst
      intro event hevent
      apply hexact event
      rw [houtcome]
      exact List.mem_append_right _ hevent
    | error fault model' =>
      have herror : (slack :: rest).forM step model = .error fault model' :=
        bind_of_error houtcome
      rw [herror]
      trivial

def IsInStep (precision : Rat) (model : Model Rat) : Prop :=
  model.IsSound ∧ model.IsCurrent precision

theorem setInequalityCoefficient_inStep (h : model.IsInStep precision)
    (hindex : index ∈ model.indices)
    (slack : Nat) (coefficient : Rat)
    (hexact : ∀ event ∈ coefficientPivots coefficient index slack model,
      event.before.dictionary.PivotExact event.row event.column) :
    Ends (setInequalityCoefficient slack coefficient index model)
      (fun _ model' => model'.IsInStep precision ∧ index ∈ model'.indices) (fun _ _ => True) := by
  have hsound := setInequalityCoefficient_sound h.1 hindex slack coefficient
  have hcurrent := setInequalityCoefficient_current h.1 h.2 hindex slack coefficient hexact
  apply (hsound.and_success hcurrent).success
  · intro _ model' hpost
    obtain ⟨⟨hquiet, hindices⟩, hcurrent'⟩ := hpost
    rw [hindices]
    exact ⟨⟨hquiet.isSound, hcurrent'⟩, hindex⟩

theorem setCoefficient_current (h : model.IsInStep precision) (reference : ConstraintRef)
    (coefficient : Rat)
    (index : Nat)
    (hexact : ∀ event ∈ pivotsOver
        (fun slack => setInequalityCoefficient slack coefficient index)
        (coefficientPivots coefficient index) reference.slacks model,
      event.before.dictionary.PivotExact event.row event.column) :
    Ends (setCoefficient reference coefficient index model) (fun _ => IsCurrent precision)
      (fun _ _ => True) := by
  apply ends_requireVariable trivial
  intro hindex
  apply (forM_pivotsOver _ _ (fun model => model.IsInStep precision ∧ index ∈ model.indices) _
    reference.slacks ⟨h, hindex⟩ hexact).success
  · intro _ _ hpost
    exact hpost.1.2
  · intro slack model hmodel hpivots
    exact setInequalityCoefficient_inStep hmodel.1 hmodel.2 slack coefficient hpivots

theorem addTerm_current (h : model.IsInStep precision) (reference : ConstraintRef)
    (coefficient : Rat)
    (index : Nat)
    (hexact : ∀ event ∈ pivotsOver
        (fun slack => do
          let constraint ← inequality slack
          let present := (constraint.coefficientOf? index).getD 0
          setInequalityCoefficient slack (present + coefficient) index)
        (termPivots coefficient index) reference.slacks model,
      event.before.dictionary.PivotExact event.row event.column) :
    Ends (addTerm reference coefficient index model) (fun _ => IsCurrent precision)
      (fun _ _ => True) := by
  apply ends_requireVariable trivial
  intro hindex
  apply (forM_pivotsOver _ _ (fun model => model.IsInStep precision ∧ index ∈ model.indices) _
    reference.slacks ⟨h, hindex⟩ hexact).success
  · intro _ _ hpost
    exact hpost.1.2
  · intro slack model hmodel hpivots
    cases hconstraint : model.constraint? slack with
    | none =>
      rw [bind_of_error (inequality_of_none hconstraint)]
      trivial
    | some constraint =>
      rw [termPivots, hconstraint] at hpivots
      rw [bind_of_ok (inequality_of_some hconstraint)]
      exact setInequalityCoefficient_inStep hmodel.1 hmodel.2 slack _ hpivots

theorem setRhs_current (h : model.IsInStep precision) (reference : ConstraintRef) (rhs : Rat) :
    Ends (setRhs reference rhs model) (fun _ => IsCurrent precision) (fun _ _ => True) := by
  have hall := Ends.forM (fun slack => setInequalityRhs slack rhs) (IsInStep precision)
    (fun _ _ => True)
    reference.slacks (fun slack _ model hmodel => by
      apply ((setInequalityRhs_sound hmodel.1 slack rhs).and_success
        (setInequalityRhs_current hmodel.1 hmodel.2 slack rhs)).success
      · intro _ _ hpost
        exact ⟨hpost.1.isSound, hpost.2⟩) model h
  apply hall.success
  · intro _ _ hpost
    exact hpost.2

/-- Noting the relaxation of a constraint changes nothing. -/
theorem IsCurrent.withRelaxation (hcurrent : model.IsCurrent precision)
    (slack relaxation : Nat) :
    IsCurrent precision { model with
      constraints := model.constraints.modify slack fun constraint =>
        { constraint with relaxation := some relaxation } } := by
  refine ⟨hcurrent.precision_nonneg, hcurrent.precision_eq, ?_⟩
  intro hloaded
  have hdenotes := hcurrent.denotes hloaded
  have hsolves (x : Nat → Rat) :
      Solves { model.quiet with
        constraints := model.constraints.modify slack fun constraint =>
          { constraint with relaxation := some relaxation } } x ↔ model.quiet.Solves x := by
    rw [solves_iff, solves_iff, OrderedMap.modify, List.forall_mem_map]
    apply forall₂_congr
    intro entry _
    split <;> exact Iff.rfl
  constructor
  · intro x
    exact (hdenotes.satisfies_iff x).trans (hsolves x).symm
  · intro x hx priority
    exact hdenotes.objective_eq x ((hsolves x).1 hx) priority

theorem relaxInequality_inStep (h : model.IsInStep precision) {relaxation : Nat}
    (hrelaxation : relaxation ∈ model.indices) (slack : Nat)
    (hexact : ∀ event ∈ relaxationPivots relaxation slack model,
      event.before.dictionary.PivotExact event.row event.column) :
    Ends (relaxInequality relaxation slack model)
      (fun _ model' => model'.IsInStep precision ∧ relaxation ∈ model'.indices)
      (fun _ _ => True) := by
  have hcurrent : Ends (relaxInequality relaxation slack model) (fun _ => IsCurrent precision)
      (fun _ _ => True) := by
    unfold relaxInequality
    cases hconstraint : model.constraint? slack with
    | none =>
      rw [bind_of_error (inequality_of_none hconstraint)]
      trivial
    | some constraint =>
      rw [relaxationPivots, hconstraint] at hexact
      rw [bind_of_ok (inequality_of_some hconstraint)]
      apply Ends.bind (setInequalityCoefficient_inStep h hrelaxation slack _ hexact)
      intro _ model' hmodel'
      exact hmodel'.1.2.withRelaxation slack relaxation
  apply ((relaxInequality_sound h.1 hrelaxation slack).and_success hcurrent).success
  · intro _ model' hpost
    obtain ⟨⟨hsound, hindices⟩, hcurrent'⟩ := hpost
    rw [hindices]
    exact ⟨⟨hsound, hcurrent'⟩, hrelaxation⟩

theorem relax_current (h : model.IsInStep precision) (reference : ConstraintRef) (weight : Rat)
    (priority : Priority)
    (hexact : ∀ event ∈ (Operation.relax reference weight priority).pivots model,
      event.before.dictionary.PivotExact event.row event.column) :
    Ends (relax reference weight priority model) (fun _ => IsCurrent precision)
      (fun _ _ => True) := by
  cases hpriority : priority.isRequired with
  | true =>
    have hrelax : relax reference weight priority model = .ok none model := by
      unfold relax
      rw [hpriority]
      rfl
    rw [hrelax]
    exact h.2
  | false =>
    have hquiet : model.numbered.quiet.IsQuiet :=
      let hquiet := h.1.isQuiet
      ⟨⟨hquiet.pool, hquiet.indices_nodup, hquiet.slacks_nodup, hquiet.apart, hquiet.known_iff,
        hquiet.integers_eq, hquiet.slack_character, hquiet.constraint_fits, hquiet.sound⟩, rfl⟩
    have hnumbered : model.numbered.quiet.IsCurrent precision :=
      ⟨h.2.precision_nonneg, h.2.quiet.precision_eq, fun hloaded => by
        have hdenotes := h.2.quiet.denotes hloaded
        exact ⟨hdenotes.satisfies_iff, hdenotes.objective_eq⟩⟩
    have hdeclared := hquiet.withVariable (model.relaxationDeclaration weight priority)
    have hcurrent := withVariable_current hquiet hnumbered
      (model.relaxationDeclaration weight priority)
    rw [Operation.pivots, hpriority, addVariable_eq] at hexact
    rw [relax_eq hpriority]
    apply Ends.bind (forM_pivotsOver _ _
      (fun model' => model'.IsInStep precision ∧
        model.quiet.tableau.pool.allocate.1 ∈ model'.indices) _
      reference.slacks ⟨⟨hdeclared.isSound, hcurrent⟩,
        List.mem_append_right _ (List.mem_singleton.2 rfl)⟩ hexact)
    · intro _ model' hmodel'
      exact hmodel'.1.2
    · intro slack model' hmodel' hpivots
      exact relaxInequality_inStep hmodel'.1 hmodel'.2 slack hpivots

/-! ## Costs and directions -/

/-- A cost that is changed in the model and in the objective of its priority. -/
theorem withCost_current (h : model.IsQuiet) (hcurrent : model.IsCurrent precision)
    (hindex : index ∈ model.indices) {data : Variable Rat}
    (hdata : model.tableau.lookup? index = some data) (cost : Rat)
    (hloaded : model.isLoaded = true) :
    Ends (onTableau (Tableau.changeCost index data.priority model.minimises (cost - data.cost))
      (model.withCost index cost)) (fun _ => IsCurrent precision) (fun _ _ => True) := by
  have hpriced := h.withCost index cost
  have hdenotes := hcurrent.denotes_of_quiet h.snapshot_eq hloaded
  obtain ⟨tableau, hedit, hframe, hmeaning⟩ := Tableau.changeCost_objectiveAt
    (hpriced.sound hloaded) hpriced.snapshot_eq (hpriced.mentions hloaded (.inl hindex))
    data.priority model.minimises (cost - data.cost)
  rw [onTableau_of_ok hedit]
  apply IsCurrent.of_quiet hcurrent.precision_nonneg
  · exact hframe.snapshot.trans hpriced.snapshot_eq
  · exact hframe.precision.trans hcurrent.precision_eq
  · intro _
    constructor
    · intro x
      exact (hmeaning x).1.trans (hdenotes.satisfies_iff x)
    · intro x hx priority
      have hcosts : objectiveAt { model.withCost index cost with tableau := tableau } priority x =
          (model.withCost index cost).objectiveAt priority x := by
        refine objectiveAt_congr ?_ ?_ ?_ x
        · rfl
        · rfl
        · intro other _
          rw [Tableau.costIn, Tableau.costIn, hframe.lookup? other]
      rw [hcosts, objectiveAt_withCost h.indices_nodup hindex hdata, ← hdenotes.objective_eq x hx]
      exact (hmeaning x).2 ((hdenotes.satisfies_iff x).2 hx) priority

/-- A cost that stays what it was. -/
theorem withCost_current_of_eq (h : model.IsQuiet) (hcurrent : model.IsCurrent precision)
    (hindex : index ∈ model.indices) {data : Variable Rat}
    (hdata : model.tableau.lookup? index = some data) {cost : Rat}
    (hsame : model.isLoaded = true → cost - data.cost = 0) :
    (model.withCost index cost).IsCurrent precision := by
  apply IsCurrent.of_quiet hcurrent.precision_nonneg (h.withCost index cost).snapshot_eq
    hcurrent.precision_eq
  intro hloaded
  have hdenotes := hcurrent.denotes_of_quiet h.snapshot_eq hloaded
  constructor
  · intro x
    exact hdenotes.satisfies_iff x
  · intro x hx priority
    rw [objectiveAt_withCost h.indices_nodup hindex hdata, hsame hloaded, Tableau.orientCost,
      neg_zero, ite_self, zero_mul, ite_self, sub_zero]
    exact hdenotes.objective_eq x hx priority

theorem setCost_current (h : model.IsInStep precision) (cost : Rat) (index : Nat) :
    Ends (setCost cost index model) (fun _ => IsCurrent precision) (fun _ _ => True) := by
  have hquiet := h.1.isQuiet
  by_cases hindex : index ∈ model.indices
  · obtain ⟨data, hdata⟩ := Option.isSome_iff_exists.1
      ((hquiet.known_iff index).2 (.inl hindex))
    rw [setCost_of_mem hindex hdata]
    split
    · rename_i hchange
      have hloaded : model.quiet.isLoaded = true := (Bool.and_eq_true_iff.1 hchange).1
      exact withCost_current hquiet h.2.quiet hindex hdata cost hloaded
    · rename_i hchange
      apply withCost_current_of_eq hquiet h.2.quiet hindex hdata
      intro hloaded
      have hloaded' : model.isLoaded = true := hloaded
      rw [hloaded'] at hchange
      simpa using hchange
  · have herror : setCost cost index model = .error _ model :=
      bind_of_error (requireVariable_of_not_mem hindex)
    rw [herror]
    trivial

theorem setDirection_current (h : model.IsCurrent precision) (minimises : Bool) :
    (model.setDirection minimises).IsCurrent precision := by
  unfold setDirection
  split
  · exact h
  · refine ⟨h.precision_nonneg, ?_,
      fun hloaded => absurd hloaded (by simp [negateRelaxationCosts])⟩
    exact (sameView_negateRelaxationCosts _).precision.trans h.quiet.precision_eq

/-! ## Removals -/

theorem costIn_of_forgets {t t' : Tableau Rat} {index other : Nat}
    (hforgets : Tableau.Forgets index t t') (hne : other ≠ index) (priority : Priority) :
    t'.costIn priority other = t.costIn priority other := by
  rw [Tableau.costIn, hforgets.lookup_eq, if_neg hne, Tableau.costIn]

theorem removeVariable_current (h : model.IsInStep precision) (index : Nat)
    (hexact : ∀ event ∈ variablePivots index model,
      event.before.dictionary.PivotExact event.row event.column) :
    Ends (removeVariable index model) (fun _ => IsCurrent precision) (fun _ _ => True) := by
  have hquiet := h.1.isQuiet
  have hcurrent := h.2.quiet
  by_cases hindex : index ∈ model.indices
  · rw [removeVariable_of_mem hindex]
    split
    · rename_i hloaded
      have hpivots : variablePivots index model = model.quiet.tableau.leavingPivots index := by
        rw [variablePivots, List.contains_iff_mem.2 hindex, hloaded]
        rfl
      rw [hpivots] at hexact
      have hdenotes := hcurrent.denotes_of_quiet hquiet.snapshot_eq hloaded
      apply ends_onTableau
      apply (Tableau.removeVariable_readsThrough (hquiet.sound hloaded) hquiet.snapshot_eq
        (hquiet.mentions hloaded (.inl hindex))
        (pivotKeeps_of_leaving hcurrent.tableau_precision_nonneg hexact)).success
      intro _ tableau hpost
      obtain ⟨hforgets, hreads⟩ := hpost
      apply IsCurrent.of_quiet hcurrent.precision_nonneg
      · exact hforgets.snapshot.trans hquiet.snapshot_eq
      · exact hforgets.precision.trans hcurrent.precision_eq
      · intro _
        apply hdenotes.of_readsThrough hreads
        · intro x
          exact solves_withoutVariable hquiet.toFits hindex
        · intro x priority
          rw [← objectiveAt_withoutVariable hquiet.toFits hindex]
          refine objectiveAt_congr ?_ ?_ ?_ x
          · rfl
          · rfl
          · intro other hother
            apply costIn_of_forgets hforgets
            exact ((hquiet.toFits.mem_withoutVariable index other).1 hother).2
    · rename_i hloaded
      exact ⟨hcurrent.precision_nonneg, hcurrent.precision_eq,
        fun hloaded' => absurd hloaded' hloaded⟩
  · have herror : removeVariable index model = .error _ model.quiet :=
      (bind_of_ok (discardSearch_eq model)).trans
        (bind_of_error (requireVariable_of_not_mem hindex))
    rw [herror]
    trivial

theorem dropSlack_current (h : model.IsQuiet) (hcurrent : model.IsCurrent precision)
    {constraint : Constraint Rat} (hsome : model.constraint? slack = some constraint)
    (hexact : model.isLoaded = true → ∀ event ∈ model.tableau.enteringPivots slack,
      event.before.dictionary.PivotExact event.row event.column) :
    Ends (dropSlack model.isLoaded slack (model.withoutConstraint slack))
      (fun _ => IsCurrent precision) (fun _ _ => True) := by
  have hslack : slack ∈ model.constraints.keys := OrderedMap.mem_keys_of_get? hsome
  have hundeclared : slack ∉ model.indices := fun hmem => h.apart slack hmem hslack
  unfold dropSlack
  split
  · rename_i hloaded
    have hdenotes := hcurrent.denotes_of_quiet h.snapshot_eq hloaded
    apply ends_onTableau
    apply (Tableau.removeConstraint_opens (h.sound hloaded) h.snapshot_eq
      (h.mentions hloaded (.inr hslack))
      (pivotKeeps_of_entering hcurrent.tableau_precision_nonneg (hexact hloaded))).success
    intro _ tableau hpost
    obtain ⟨hforgets, hmeaning⟩ := hpost
    apply IsCurrent.of_quiet hcurrent.precision_nonneg
    · exact hforgets.snapshot.trans h.snapshot_eq
    · exact hforgets.precision.trans hcurrent.precision_eq
    · intro _
      have hsolves (x : Nat → Rat) :
          Solves { model.withoutConstraint slack with tableau := tableau } x ↔
            ∃ value, model.tableau.dictionary.Satisfies (Function.update x slack value) := by
        apply (solves_withoutConstraint h.toFits hsome).trans
        apply exists_congr
        intro value
        exact (hdenotes.satisfies_iff _).symm
      constructor
      · intro x
        exact (hmeaning x).1.trans (hsolves x).symm
      · intro x hx priority
        obtain ⟨value, hvalue⟩ := (hsolves x).1 hx
        rw [(hmeaning x).2 value hvalue priority,
          hdenotes.objective_eq _ ((hdenotes.satisfies_iff _).1 hvalue),
          objectiveAt_update hundeclared]
        symm
        refine objectiveAt_congr ?_ ?_ ?_ x
        · rfl
        · rfl
        · intro other hother
          apply costIn_of_forgets hforgets
          intro heq
          rw [heq] at hother
          exact hundeclared hother
  · rename_i hloaded
    exact ⟨hcurrent.precision_nonneg, hcurrent.precision_eq,
        fun hloaded' => absurd hloaded' hloaded⟩

theorem removeConstraint_discardSearch (slack : Nat) (t : Tableau Rat) :
    Tableau.removeConstraint slack t.discardSearch = Tableau.removeConstraint slack t := by
  have hremove (t : Tableau Rat) : Tableau.removeConstraint slack t =
      (do
        let r ← Tableau.enterBasis slack
        modify fun t => (t.modifyDictionary fun d => d.dropRow r).release slack :
          Tableau.Action Rat Unit) t.discardSearch := rfl
  rw [hremove, hremove, Tableau.discardSearch_discardSearch]

theorem inequalityPivots_of_some {constraint : Constraint Rat}
    (hsome : model.constraint? slack = some constraint) (hloaded : model.isLoaded = true) :
    inequalityPivots slack model = model.quiet.tableau.enteringPivots slack ++
      droppedPivots model.indices constraint
        (Tableau.removeConstraint slack model.quiet.tableau) := by
  have hremove : Tableau.removeConstraint slack model.quiet.tableau =
      Tableau.removeConstraint slack model.tableau := removeConstraint_discardSearch ..
  rw [inequalityPivots, hsome, hremove]
  exact if_pos hloaded

theorem dropSlack_eq_ok {model' : Model Rat} {result : Unit}
    (hok : dropSlack model.isLoaded slack model = .ok result model')
    (hloaded : model'.isLoaded = true) :
    model.isLoaded = true ∧ ∃ tableau,
      Tableau.removeConstraint slack model.tableau = .ok () tableau ∧
        model' = { model with tableau := tableau } := by
  unfold dropSlack at hok
  split at hok
  · rename_i hloaded'
    refine ⟨hloaded', ?_⟩
    cases hremove : Tableau.removeConstraint slack model.tableau with
    | ok result' tableau =>
      rw [onTableau_of_ok hremove] at hok
      injection hok with _ hmodel'
      exact ⟨tableau, rfl, hmodel'.symm⟩
    | error fault tableau =>
      rw [onTableau_of_error hremove] at hok
      exact absurd hok (by simp)
  · rename_i hunloaded
    injection hok with _ hmodel'
    rw [← hmodel'] at hloaded
    exact absurd hloaded hunloaded

theorem dropRelaxation_current (h : model.IsInStep precision)
    (hquiet : model.tableau.snapshot = none)
    (constraint : Constraint Rat)
    (hexact : ∀ relaxation, constraint.relaxation = some relaxation →
      relaxation ∈ model.indices → model.isLoaded = true →
      ∀ event ∈ model.tableau.leavingPivots relaxation,
        event.before.dictionary.PivotExact event.row event.column) :
    Ends (dropRelaxation constraint model) (fun _ => IsCurrent precision) (fun _ _ => True) := by
  unfold dropRelaxation
  cases hrelaxation : constraint.relaxation with
  | none => exact h.2
  | some relaxation =>
    simp only [bind, EStateM.bind, run_get]
    split
    · rename_i hcontains
      apply removeVariable_current h
      intro event hevent
      rw [variablePivots, hcontains, Tableau.discardSearch_eq_self hquiet] at hevent
      cases hloaded : model.isLoaded with
      | true =>
        rw [hloaded] at hevent
        exact hexact relaxation hrelaxation (List.contains_iff_mem.1 hcontains) hloaded event
          hevent
      | false =>
        rw [hloaded] at hevent
        exact absurd hevent List.not_mem_nil
    · exact h.2

theorem removeInequality_inStep (h : model.IsInStep precision) (slack : Nat)
    (hexact : ∀ event ∈ inequalityPivots slack model,
      event.before.dictionary.PivotExact event.row event.column) :
    Ends (removeInequality slack model) (fun _ => IsInStep precision) (fun _ _ => True) := by
  have hquiet := h.1.isQuiet
  have hcurrent := h.2.quiet
  apply (removeInequality_sound h.1 slack).and_success
  cases hconstraint : model.constraint? slack with
  | none =>
    rw [removeInequality_of_none hconstraint]
    trivial
  | some constraint =>
    have hslack : slack ∈ model.constraints.keys := OrderedMap.mem_keys_of_get? hconstraint
    have hsound := dropSlack_sound hquiet hslack
    have hcurrent' := dropSlack_current hquiet hcurrent hconstraint fun hloaded event hevent => by
      apply hexact event
      rw [inequalityPivots_of_some hconstraint hloaded]
      exact List.mem_append_left _ hevent
    rw [removeInequality_of_some hconstraint]
    cases houtcome : dropSlack model.isLoaded slack (model.quiet.withoutConstraint slack) with
    | error fault model' =>
      rw [bind_of_error houtcome]
      trivial
    | ok result model' =>
      have hquiet' : model'.IsQuiet := hsound.of_ok houtcome
      rw [bind_of_ok houtcome]
      apply dropRelaxation_current ⟨hquiet'.isSound, hcurrent'.of_ok houtcome⟩
        hquiet'.snapshot_eq
      intro relaxation hrelaxation hmem hloaded' event hevent
      -- The relaxation leaves the tableau that the slack has left.
      have hdropped : dropSlack (model.quiet.withoutConstraint slack).isLoaded slack
          (model.quiet.withoutConstraint slack) = .ok result model' := houtcome
      obtain ⟨hloaded, tableau, hremove, rfl⟩ := dropSlack_eq_ok hdropped hloaded'
      have hcontains : model.indices.contains relaxation = true := List.contains_iff_mem.2 hmem
      have hremove' : Tableau.removeConstraint slack model.quiet.tableau = .ok () tableau := hremove
      apply hexact event
      rw [inequalityPivots_of_some hconstraint hloaded, hremove']
      apply List.mem_append_right
      rw [droppedPivots, hrelaxation]
      simp only [hcontains, if_true]
      exact hevent

/-! ## Solves -/

/-- The model that a solve works on is in step with its tableau. -/
theorem ready_current (h : model.IsInStep precision) : model.ready.IsCurrent precision := by
  cases hloaded : model.isLoaded with
  | true =>
    rw [ready_of_loaded hloaded]
    exact h.2
  | false =>
    obtain ⟨tableau, hload, hprecision, hsnapshot, hpool, harena, hwith⟩ := load_eq_ok h.1
    rw [ready_of_not_loaded hloaded, hload]
    apply IsCurrent.of_quiet h.2.precision_nonneg hsnapshot
    · exact hprecision.trans h.2.precision_eq
    · intro _
      have hfits := h.1.root_fits.of_isLoadedWith hpool harena hwith
      have hlookup : tableau.lookup? = model.tableau.discardSearch.lookup? := by
        funext index
        rw [Tableau.lookup?, harena, Tableau.lookup?]
      rw [← hlookup] at hwith
      exact (hfits.isQuiet hsnapshot).toFits.denotes_of_isLoadedWith hwith

theorem costIn_of_traits? {t t' : Tableau Rat} {index : Nat}
    (htraits : t'.traits? index = t.traits? index) (priority : Priority) :
    t'.costIn priority index = t.costIn priority index := by
  rw [Tableau.costIn, Tableau.costIn]
  rw [Tableau.traits?, Tableau.traits?] at htraits
  cases hdata : t.lookup? index with
  | none =>
    rw [hdata, Option.map_none, Option.map_eq_none_iff] at htraits
    rw [htraits]
  | some data =>
    rw [hdata, Option.map_some, Option.map_eq_some_iff] at htraits
    obtain ⟨data', hdata', hsame⟩ := htraits
    have hpriority : data'.traits.priority = data.traits.priority := by rw [hsame]
    have hcost : data'.traits.cost = data.traits.cost := by rw [hsame]
    change data'.priority = data.priority at hpriority
    change data'.cost = data.cost at hcost
    simp only [hdata', hpriority, hcost]

/-- However a solve ends, the model is in step with its tableau afterwards. -/
theorem solve_current (h : model.IsInStep precision) (hcuts : model.AvoidsCuts) (effort : Effort)
    (hexact : ∀ event ∈ solvePivots effort model,
      event.before.dictionary.PivotExact event.row event.column) :
    (finalState (solve effort model)).IsCurrent precision := by
  obtain ⟨hsolve, hready, hloaded, -⟩ := solve_eq h.1 effort
  have hcurrent := ready_current h
  have hprecision : 0 ≤ (model.ready.tableau.readied model.ready.searchSpace).precision :=
    hcurrent.quiet.tableau_precision_nonneg
  have hsettles := hready.solve_settles hloaded Dictionary.PivotKeeps effort
    (hcuts.rootCuts_eq_zero h.1 effort) fun event hevent => ⟨hexact event hevent,
      Tableau.entry_ne_zero_of_mem_simplexPivots hprecision hevent⟩
  rw [hsolve, finalState_onTableau]
  generalize finalState (Tableau.solve model.ready.searchSpace effort model.ready.tableau) = t
    at hsettles
  refine ⟨hcurrent.precision_nonneg, ?_, ?_⟩
  · exact hsettles.precision.trans hcurrent.quiet.precision_eq
  · intro _
    have hbasis := (hready.isQuiet.sound hloaded).consistent.hasBasis
    apply (hcurrent.denotes hloaded).of_readsThrough (hsettles.root_pivots.sameMeaning hbasis)
    · intro x
      exact Iff.rfl
    · intro x priority
      refine objectiveAt_congr ?_ ?_ ?_ x
      · rfl
      · rfl
      · intro index _
        exact costIn_of_traits? (hsettles.root_traits index) priority

end Model

/-! ## Runs -/

namespace Operation

variable {precision : Rat}

/-- An operation whose pivots drop no entry other than zero: an edit that succeeds, or a
solve without rounding cuts. -/
structure Faithful (model : Model Rat) (operation : Operation Rat) : Prop where
  avoidsCuts : operation.isSolve = true → model.AvoidsCuts
  succeeds : operation.isSolve = false → ∃ model', operation.perform model = .ok () model'
  pivots_exact : ∀ event ∈ operation.pivots model,
    event.before.dictionary.PivotExact event.row event.column

instance (model : Model Rat) (operation : Operation Rat) : Decidable (Faithful model operation) :=
  decidable_of_iff ((operation.isSolve = true → model.AvoidsCuts) ∧
      (operation.isSolve = false → ∃ model', operation.perform model = .ok () model') ∧
      ∀ event ∈ operation.pivots model,
        event.before.dictionary.PivotExact event.row event.column)
    ⟨fun h => ⟨h.1, h.2.1, h.2.2⟩, fun h => ⟨h.avoidsCuts, h.succeeds, h.pivots_exact⟩⟩

theorem Faithful.unstuck {model : Model Rat} {operation : Operation Rat}
    (h : Faithful model operation) : operation.Unstuck model := by
  refine ⟨h.avoidsCuts, ?_⟩
  intro hremoval fault model' herror
  have hedit : operation.isSolve = false := by
    cases operation with
    | solve effort => exact absurd hremoval Bool.false_ne_true
    | _ => rfl
  obtain ⟨model'', hok⟩ := h.succeeds hedit
  rw [herror] at hok
  exact absurd hok (by simp)

/-- What an edit leaves behind on success, it leaves behind. -/
theorem current_of_ends {model : Model Rat} {operation : Operation Rat}
    (h : Faithful model operation) (hedit : operation.isSolve = false)
    (hends : Ends (operation.perform model) (fun _ => Model.IsCurrent precision) fun _ _ => True) :
    (operation.result model).IsCurrent precision := by
  obtain ⟨model', hok⟩ := h.succeeds hedit
  rw [result, hok]
  exact hends.of_ok hok

theorem addInequality_inStep {model : Model Rat} (h : model.IsInStep precision) (rhs : Rat)
    (isUpperBound : Bool) :
    Ends (Model.addInequality rhs isUpperBound model) (fun _ => Model.IsInStep precision)
      (fun _ _ => True) := by
  rw [Model.addInequality_eq]
  exact ⟨(h.1.isQuiet.withInequality rhs isUpperBound).isSound,
    Model.withInequality_current h.1.isQuiet h.2.quiet rhs isUpperBound⟩

/-- Every faithful operation keeps a model in step with its tableau. -/
theorem result_current {model : Model Rat} (h : model.IsInStep precision)
    {operation : Operation Rat}
    (hoperation : Faithful model operation) : (operation.result model).IsCurrent precision := by
  have hexact := hoperation.pivots_exact
  cases operation with
  | setOptions options =>
    refine ⟨h.2.precision_nonneg, h.2.precision_eq, ?_⟩
    intro hloaded
    have hdenotes := h.2.denotes hloaded
    exact ⟨hdenotes.satisfies_iff, hdenotes.objective_eq⟩
  | minimise => exact Model.setDirection_current h.2 true
  | maximise => exact Model.setDirection_current h.2 false
  | addVariable declaration =>
    apply current_of_ends hoperation rfl
    apply ends_forEffect
    rw [Model.addVariable_eq]
    exact Model.withVariable_current h.1.isQuiet h.2.quiet declaration
  | atMost rhs =>
    apply current_of_ends hoperation rfl
    apply ends_forEffect
    apply Ends.bind (addInequality_inStep h rhs true)
    intro _ _ hmodel'
    exact hmodel'.2
  | atLeast rhs =>
    apply current_of_ends hoperation rfl
    apply ends_forEffect
    apply Ends.bind (addInequality_inStep h rhs false)
    intro _ _ hmodel'
    exact hmodel'.2
  | equal rhs =>
    apply current_of_ends hoperation rfl
    apply ends_forEffect
    apply Ends.bind (addInequality_inStep h rhs true)
    intro _ model' hmodel'
    apply Ends.bind (addInequality_inStep hmodel' rhs false)
    intro _ model'' hmodel''
    exact hmodel''.2
  | addTerm reference coefficient index =>
    exact current_of_ends hoperation rfl
      (Model.addTerm_current h reference coefficient index hexact)
  | setCoefficient reference coefficient index =>
    exact current_of_ends hoperation rfl
      (Model.setCoefficient_current h reference coefficient index hexact)
  | setRhs reference rhs =>
    exact current_of_ends hoperation rfl (Model.setRhs_current h reference rhs)
  | relax reference weight priority =>
    exact current_of_ends hoperation rfl
      (ends_forEffect (Model.relax_current h reference weight priority hexact))
  | removeConstraint reference =>
    apply current_of_ends hoperation rfl
    apply (Model.forM_pivotsOver _ _ (Model.IsInStep precision) _ reference.slacks h hexact).success
    · intro _ _ hpost
      exact hpost.2
    · intro slack model' hmodel' hpivots
      exact Model.removeInequality_inStep hmodel' slack hpivots
  | removeVariable index =>
    exact current_of_ends hoperation rfl (Model.removeVariable_current h index hexact)
  | setCost cost index =>
    exact current_of_ends hoperation rfl (Model.setCost_current h cost index)
  | solve effort =>
    have hsame : result (.solve effort) model = finalState (Model.solve effort model) :=
      finalState_forEffect ..
    rw [hsame]
    exact Model.solve_current h (hoperation.avoidsCuts rfl) effort hexact

theorem isInStep_after (hprecision : 0 ≤ precision) {options : Options Rat}
    {operations : List (Operation Rat)}
    (hrun : Along Faithful (Model.empty precision options) operations) :
    (after (Model.empty precision options) operations).IsInStep precision := by
  apply invariant_after (Model.IsInStep precision) _ hrun
  · refine ⟨(Model.empty_isQuiet precision options).isSound, hprecision, rfl, ?_⟩
    intro hloaded
    exact absurd hloaded (by simp [Model.empty])
  · intro model operation hmodel hoperation
    exact ⟨result_sound hmodel.1 hoperation.unstuck, result_current hmodel hoperation⟩

end Operation

/-- Leaving a search does not change the costs of the declared variables. -/
theorem Model.IsSound.costIn_discardSearch {model : Model Rat} (h : model.IsSound) {index : Nat}
    (hindex : index ∈ model.indices) (priority : Priority) :
    model.tableau.discardSearch.costIn priority index = model.tableau.costIn priority index := by
  rw [Tableau.costIn, Tableau.costIn,
    Tableau.lookup?_discardSearch_of_isSome ((h.root_fits.known_iff index).2 (.inl hindex))]

/-- A loaded model that is in step has a tableau that denotes it. -/
theorem Model.IsInStep.denotes {model : Model Rat} {precision : Rat} (h : model.IsInStep precision)
    (hloaded : model.isLoaded = true) :
    model.tableau.discardSearch.dictionary.Denotes model := by
  have hdenotes := h.2.denotes hloaded
  constructor
  · exact hdenotes.satisfies_iff
  · intro x hx priority
    apply (hdenotes.objective_eq x hx priority).trans
    refine Model.objectiveAt_congr ?_ ?_ ?_ x
    · rfl
    · rfl
    · intro index hindex
      exact h.1.costIn_discardSearch hindex priority

/-- The dictionary of a model that is built from scratch denotes the model. -/
theorem Model.IsSound.exists_rebuilt {model : Model Rat} (h : model.IsSound) :
    ∃ rebuilt, Tableau.load model.indices model.constraints.values model.minimises
        model.tableau = .ok () rebuilt ∧ rebuilt.dictionary.Denotes model := by
  have hfits := h.root_fits
  have hslacks : (model.constraints.values.map Constraint.slack).Nodup := by
    rw [hfits.map_slack_values]
    exact hfits.slacks_nodup
  obtain ⟨rebuilt, hload, -, -, -, -, hwith⟩ := Tableau.load_eq_ok model.minimises
    (fun index hindex => (hfits.known_iff index).2 (.inl hindex)) hfits.indices_nodup hslacks
    hfits.isLoadable
  have hdenotes : rebuilt.dictionary.Denotes model.quiet :=
    h.isQuiet.toFits.denotes_of_isLoadedWith hwith
  refine ⟨rebuilt, hload, hdenotes.satisfies_iff, ?_⟩
  intro x hx priority
  apply (hdenotes.objective_eq x hx priority).trans
  refine Model.objectiveAt_congr ?_ ?_ ?_ x
  · rfl
  · rfl
  · intro index hindex
    exact h.costIn_discardSearch hindex priority

namespace Operation

/-- After every faithful run from the empty model, a loaded tableau denotes the model
once a pending search is left, and a rebuild succeeds and means the same. -/
theorem denotes_after (precision : Rat) (hprecision : 0 ≤ precision) (options : Options Rat)
    (operations : List (Operation Rat))
    (hrun : Along Faithful (Model.empty precision options) operations) (model : Model Rat)
    (hmodel : model = after (Model.empty precision options) operations)
    (hloaded : model.isLoaded = true) :
    model.tableau.discardSearch.dictionary.Denotes model ∧
      ∃ rebuilt, Tableau.load model.indices model.constraints.values model.minimises
          model.tableau = .ok () rebuilt ∧
        rebuilt.dictionary.SameMeaning model.tableau.discardSearch.dictionary := by
  have hstep : model.IsInStep precision := by
    rw [hmodel]
    exact isInStep_after hprecision hrun
  have hdenotes := hstep.denotes hloaded
  obtain ⟨rebuilt, hload, hrebuilt⟩ := hstep.1.exists_rebuilt
  refine ⟨hdenotes, rebuilt, hload, ?_⟩
  have hsatisfies (x : Nat → Rat) : model.tableau.discardSearch.dictionary.Satisfies x ↔
      rebuilt.dictionary.Satisfies x :=
    (hdenotes.satisfies_iff x).trans (hrebuilt.satisfies_iff x).symm
  refine ⟨hsatisfies, ?_⟩
  intro x hx priority
  have hsolves := (hrebuilt.satisfies_iff x).1 hx
  rw [hdenotes.objective_eq x hsolves, hrebuilt.objective_eq x hsolves]

/-- A model that is solved, edited in every way while the slack of its constraint is out
of the basis, and solved again. -/
def editedRun : List (Operation Rat) :=
  [.addVariable ⟨1, none, false, false, .required⟩,
    .atLeast 3,
    .addTerm (.inequality 1) 2 0,
    .solve ⟨8, 0, 8, fun _ => 0⟩,
    .setRhs (.inequality 1) 5,
    .addVariable ⟨2, none, false, true, ⟨1⟩⟩,
    .setCoefficient (.inequality 1) 3 2,
    .relax (.inequality 1) 7 ⟨2⟩,
    .setCost 4 0,
    .atMost 9,
    .addTerm (.inequality 4) 1 0,
    .solve ⟨8, 0, 8, fun _ => 0⟩,
    .removeConstraint (.inequality 4),
    .removeVariable 2]

theorem denotes_after_editedRun :
    Along Faithful (Model.empty 1e-9 Options.standard) editedRun ∧
      (after (Model.empty 1e-9 Options.standard) editedRun).isLoaded = true ∧
      (after (Model.empty 1e-9 Options.standard) editedRun).tableau.discardSearch.dictionary.Denotes
        (after (Model.empty 1e-9 Options.standard) editedRun) := by
  have hrun : Along Faithful (Model.empty 1e-9 Options.standard) editedRun := by decide +kernel
  have hloaded : (after (Model.empty 1e-9 Options.standard) editedRun).isLoaded = true := by
    decide +kernel
  exact ⟨hrun, hloaded,
    (denotes_after 1e-9 (by decide +kernel) Options.standard editedRun hrun _ rfl hloaded).1⟩

end Operation

end MixedInteger
