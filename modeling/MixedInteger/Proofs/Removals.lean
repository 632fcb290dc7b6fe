import MixedInteger.Proofs.BasisInvariant
import MixedInteger.Proofs.Registry

/-!
# The tableau after a removal

A removal takes a constraint or a variable out of the lists of the model first and out of the
tableau then.  For the second step the variable has to be brought into the basis, or out of
it, which is refused if all numbers of its column, or of its row, count as zero.  Main
statement: after a removal the tableau is in order and its rows and columns are labelled by
exactly the slacks and the variables of the model, whether the removal succeeds or fails, unless
it was refused in this way; then the variable it was about is left behind in its row or column,
and nothing else.
-/

namespace MixedInteger

/-- The variable that a refused exchange leaves where it was. -/
def Cause.strandedIndex? : Cause → Option Nat
  | .cannotEnter index => some index
  | .cannotLeave index => some index
  | _ => none

theorem Cause.isStuck_eq (cause : Cause) : cause.isStuck = cause.strandedIndex?.isSome := by
  cases cause <;> rfl

namespace Tableau

variable {α : Type} [Scalar α] {t t' : Tableau α} {index : Nat}

/-- A variable cannot change places: all numbers of its column, or of its row, count as
zero. -/
def IsWedged (t : Tableau α) (index : Nat) : Prop :=
  (∃ c ∈ t.dictionary.columns, t.dictionary.nonBasicAt c = some index ∧
      ∀ r ∈ t.dictionary.rows, ¬ t.precision < Scalar.abs (t.dictionary.entry r c)) ∨
    ∃ r ∈ t.dictionary.rows, t.dictionary.basicAt r = some index ∧
      ∀ c ∈ t.dictionary.columns, ¬ t.precision < Scalar.abs (t.dictionary.entry r c)

theorem IsWedged.hasVariable (h : t.IsWedged index) : t.dictionary.HasVariable index := by
  rcases h with ⟨c, hc, hcolumn, -⟩ | ⟨r, hr, hrow, -⟩
  · exact .inr ⟨c, hc, hcolumn⟩
  · exact .inl ⟨r, hr, hrow⟩

/-- Why a variable is not brought into the basis: it has no place, or all numbers of its
column count as zero. -/
theorem enterBasis_eq_error {fault : Fault} (h : enterBasis index t = .error fault t') :
    ¬ t.dictionary.Mentions index ∧ fault = (Cause.variableNotInTableau index : Fault) ∨
      fault = (Cause.cannotEnter index : Fault) ∧ ∃ c, t.dictionary.column? index = some c ∧
        ∀ r ∈ t.dictionary.rows, ¬ t.precision < Scalar.abs (t.dictionary.entry r c) := by
  simp only [enterBasis, bind, EStateM.bind, run_get] at h
  cases hrow : t.dictionary.row? index with
  | some r =>
    rw [hrow] at h
    cases h
  | none =>
    cases hcolumn : t.dictionary.column? index with
    | none =>
      rw [hrow, hcolumn] at h
      injection h with hfault
      exact .inl ⟨by simp [Dictionary.Mentions, hrow, hcolumn], hfault.symm⟩
    | some c =>
      cases hfind : t.dictionary.rows.find? fun r =>
          t.precision < Scalar.abs (t.dictionary.entry r c) with
      | some r =>
        simp only [hrow, hcolumn, hfind] at h
        cases h
      | none =>
        simp only [hrow, hcolumn, hfind] at h
        injection h with hfault
        refine .inr ⟨hfault.symm, c, rfl, ?_⟩
        intro r hr
        simpa using List.find?_eq_none.1 hfind r hr

/-- Why a variable is not taken out of the basis: it has no place, or all numbers of its row
count as zero. -/
theorem leaveBasis_eq_error {fault : Fault} (h : leaveBasis index t = .error fault t') :
    ¬ t.dictionary.Mentions index ∧ fault = (Cause.variableNotInTableau index : Fault) ∨
      fault = (Cause.cannotLeave index : Fault) ∧ ∃ r, t.dictionary.row? index = some r ∧
        ∀ c ∈ t.dictionary.columns, ¬ t.precision < Scalar.abs (t.dictionary.entry r c) := by
  simp only [leaveBasis, bind, EStateM.bind, run_get] at h
  cases hcolumn : t.dictionary.column? index with
  | some c =>
    rw [hcolumn] at h
    cases h
  | none =>
    cases hrow : t.dictionary.row? index with
    | none =>
      rw [hrow, hcolumn] at h
      injection h with hfault
      exact .inl ⟨by simp [Dictionary.Mentions, hrow, hcolumn], hfault.symm⟩
    | some r =>
      cases hfind : t.dictionary.columns.find? fun c =>
          t.precision < Scalar.abs (t.dictionary.entry r c) with
      | some c =>
        simp only [hrow, hcolumn, hfind] at h
        cases h
      | none =>
        simp only [hrow, hcolumn, hfind] at h
        injection h with hfault
        refine .inr ⟨hfault.symm, r, rfl, ?_⟩
        intro c hc
        simpa using List.find?_eq_none.1 hfind c hc

theorem isWedged_of_enterBasis (hconsistent : t.dictionary.IsConsistent)
    (h : enterBasis index t = .error (Cause.cannotEnter index : Fault) t') : t.IsWedged index := by
  rcases enterBasis_eq_error h with ⟨-, hfault⟩ | ⟨-, c, hcolumn, hzeros⟩
  · cases hfault
  · obtain ⟨hc, hlabel⟩ := hconsistent.column?_eq_some_iff.1 hcolumn
    exact .inl ⟨c, hc, hlabel, hzeros⟩

theorem isWedged_of_leaveBasis (hconsistent : t.dictionary.IsConsistent)
    (h : leaveBasis index t = .error (Cause.cannotLeave index : Fault) t') : t.IsWedged index := by
  rcases leaveBasis_eq_error h with ⟨-, hfault⟩ | ⟨-, r, hrow, hzeros⟩
  · cases hfault
  · obtain ⟨hr, hlabel⟩ := hconsistent.row?_eq_some_iff.1 hrow
    exact .inr ⟨r, hr, hlabel, hzeros⟩

/-- A refused removal of a constraint. -/
theorem isWedged_of_removeConstraint (hconsistent : t.dictionary.IsConsistent)
    (hquiet : t.snapshot = none)
    (h : removeConstraint index t = .error (Cause.cannotEnter index : Fault) t') :
    t.IsWedged index := by
  have hremove : removeConstraint index t =
      (enterBasis index >>= fun r => modify fun t =>
        (t.modifyDictionary fun d => d.dropRow r).release index : Action α Unit) t :=
    bind_of_ok (modify_discardSearch hquiet)
  rw [hremove] at h
  exact isWedged_of_enterBasis hconsistent (error_of_bind_modify h)

/-- A refused removal of a variable. -/
theorem isWedged_of_removeVariable (hconsistent : t.dictionary.IsConsistent)
    (hquiet : t.snapshot = none)
    (h : removeVariable index t = .error (Cause.cannotLeave index : Fault) t') :
    t.IsWedged index := by
  have hremove : removeVariable index t =
      (leaveBasis index >>= fun c => modify fun t =>
        (t.modifyDictionary fun d => d.dropColumn c).release index : Action α Unit) t :=
    bind_of_ok (modify_discardSearch hquiet)
  rw [hremove] at h
  exact isWedged_of_leaveBasis hconsistent (error_of_bind_modify h)

end Tableau

namespace Model

variable {α : Type} [Scalar α]

/-- Once a pending search is left, the tableau passes the check of its basis, and its rows and
columns are labelled by the slacks and the variables of the model and by nothing else, apart from
a wedged variable that the model no longer has. -/
structure AgreesApartFrom (stranded : Option Nat) (model : Model α) : Prop where
  valid : model.root.validate = .ok ()
  labelled_iff : ∀ index, model.root.dictionary.HasVariable index ↔
    index ∈ model.constraints.keys ∨ index ∈ model.indices ∨ index ∈ stranded
  slack_iff : ∀ index, index ∈ model.constraints.keys ↔
    model.root.dictionary.HasVariable index ∧ model.root.isSlack? index = some true ∧
      index ∉ stranded
  variable_iff : ∀ index, index ∈ model.indices ↔
    model.root.dictionary.HasVariable index ∧ model.root.isSlack? index = some false ∧
      index ∉ stranded
  stranded_wedged : ∀ index ∈ stranded, model.root.IsWedged index

/-- The tableau passes the check of its basis, and its rows and columns are labelled by exactly
the slacks and the variables of the model. -/
def Agrees (model : Model α) : Prop :=
  model.AgreesApartFrom none

/-- A loaded model in order: outside a search its tableau fits the model, and it knows the kinds
of all variables. -/
structure IsSettled (model : Model α) : Prop where
  sound : model.IsSound
  orderly : model.IsOrderly
  loaded : model.isLoaded = true

section Agreement

variable {model : Model α} {index slack : Nat}

omit [Scalar α] in
theorem IsSettled.isSound_root (h : model.IsSettled) : model.root.IsSound :=
  h.sound.root_fits.sound h.loaded

omit [Scalar α] in
theorem IsSettled.labelled_iff (h : model.IsSettled) (index : Nat) :
    model.root.dictionary.HasVariable index ↔
      index ∈ model.constraints.keys ∨ index ∈ model.indices := by
  rw [h.isSound_root.consistent.hasVariable_iff, h.isSound_root.mentions_iff, or_comm]
  exact h.sound.root_fits.known_iff index

omit [Scalar α] in
theorem IsSettled.slack_iff (h : model.IsSettled) (index : Nat) :
    index ∈ model.constraints.keys ↔
      model.root.dictionary.HasVariable index ∧ model.root.isSlack? index = some true := by
  rw [h.labelled_iff]
  constructor
  · intro hslack
    exact ⟨.inl hslack, h.orderly.slack_known index hslack⟩
  · rintro ⟨hslack | hindex, hkind⟩
    · exact hslack
    · rw [h.orderly.variable_known index hindex] at hkind
      exact absurd hkind (by simp)

omit [Scalar α] in
theorem IsSettled.variable_iff (h : model.IsSettled) (index : Nat) :
    index ∈ model.indices ↔
      model.root.dictionary.HasVariable index ∧ model.root.isSlack? index = some false := by
  rw [h.labelled_iff]
  constructor
  · intro hindex
    exact ⟨.inr hindex, h.orderly.variable_known index hindex⟩
  · rintro ⟨hslack | hindex, hkind⟩
    · rw [h.orderly.slack_known index hslack] at hkind
      exact absurd hkind (by simp)
    · exact hindex

theorem IsSettled.agrees (h : model.IsSettled) : model.Agrees where
  valid := h.isSound_root.validate
  labelled_iff index := by simpa using h.labelled_iff index
  slack_iff index := by simpa using h.slack_iff index
  variable_iff index := by simpa using h.variable_iff index
  stranded_wedged _ hindex := absurd hindex (by simp)

/-- A stranded variable is a disagreement. -/
theorem AgreesApartFrom.agrees_iff {stranded : Option Nat}
    (h : model.AgreesApartFrom stranded) : model.Agrees ↔ stranded = none := by
  constructor
  · intro hagrees
    cases stranded with
    | none => rfl
    | some index =>
      have hlabelled := (h.stranded_wedged index rfl).hasVariable
      rcases (hagrees.labelled_iff index).1 hlabelled with hslack | hindex | hstranded
      · exact absurd rfl ((h.slack_iff index).1 hslack).2.2
      · exact absurd rfl ((h.variable_iff index).1 hindex).2.2
      · exact absurd hstranded (by simp)
  · rintro rfl
    exact h

/-- A wedged variable that the model has lost, and nothing else. -/
theorem IsSettled.strand (h : model.IsSettled) {model' : Model α}
    (hroot : model'.root = model.root)
    (hkeys : ∀ other, other ∈ model'.constraints.keys ↔
      other ∈ model.constraints.keys ∧ other ≠ index)
    (hindices : ∀ other, other ∈ model'.indices ↔ other ∈ model.indices ∧ other ≠ index)
    (hwedged : model.root.IsWedged index) : model'.AgreesApartFrom (some index) := by
  refine ⟨?_, ?_, ?_, ?_, ?_⟩
  · rw [hroot]
    exact h.isSound_root.validate
  · intro other
    rw [hroot, h.labelled_iff, hkeys, hindices, Option.mem_some]
    by_cases hother : other = index
    · have hlabelled := (h.labelled_iff index).1 hwedged.hasVariable
      simp [hother, hlabelled]
    · simp [hother, Ne.symm hother]
  · intro other
    rw [hroot, hkeys, h.slack_iff, and_assoc, Option.mem_some, ne_comm]
  · intro other
    rw [hroot, hindices, h.variable_iff, and_assoc, Option.mem_some, ne_comm]
  · rintro _ ⟨⟩
    rw [hroot]
    exact hwedged

/-- A variable that was taken out of the lists alone. -/
theorem IsSettled.strand_variable (h : model.IsSettled) (hindex : index ∈ model.indices)
    (hwedged : model.root.IsWedged index) :
    (model.withoutVariable index).AgreesApartFrom (some index) := by
  have hroot : (model.withoutVariable index).root = model.root := rfl
  apply h.strand hroot _ (h.sound.root_fits.mem_withoutVariable index) hwedged
  intro other
  rw [keys_withoutVariable, iff_self_and]
  rintro hslack rfl
  exact h.orderly.apart hindex hslack

/-- A slack whose constraint was taken out of the model alone. -/
theorem IsSettled.strand_slack (h : model.IsSettled) (hslack : slack ∈ model.constraints.keys)
    (hwedged : model.root.IsWedged slack) :
    (model.withoutConstraint slack).AgreesApartFrom (some slack) := by
  have hroot : (model.withoutConstraint slack).root = model.root := rfl
  apply h.strand hroot _ _ hwedged
  · intro other
    rw [withoutConstraint, OrderedMap.keys_erase, List.mem_filter, bne_iff_ne]
  · intro other
    change other ∈ model.indices ↔ other ∈ model.indices ∧ other ≠ slack
    rw [iff_self_and]
    rintro hindex rfl
    exact h.orderly.apart hindex hslack

def AgreesAfter (fault : Fault) (model : Model α) : Prop :=
  model.AgreesApartFrom fault.cause.strandedIndex?

theorem IsSettled.quiet (h : model.IsSettled) : model.quiet.IsSettled := by
  have hquiet : Carries (fun _ => False) model model.quiet := carries_quiet h.orderly
  exact ⟨h.sound.isQuiet.isSound, hquiet.orderly, h.loaded⟩

theorem removeVariable_agrees (h : model.IsSettled) (index : Nat) :
    Ends (removeVariable index model) (fun _ => IsSettled) AgreesAfter := by
  by_cases hindex : index ∈ model.indices
  · have hquiet := h.sound.isQuiet
    have hsound := removeVariable_sound h.sound index
    have hcarries : Ends (removeVariable index model)
        (fun _ => Carries (fun _ => False) model) fun _ => Carries (fun _ => False) model :=
      removeVariable_carries h.orderly index
    rw [removeVariable_of_mem hindex, if_pos h.loaded] at hsound hcarries ⊢
    rcases Tableau.removeVariable_cases (fun _ _ _ => True) (hquiet.sound h.loaded)
      hquiet.snapshot_eq (hquiet.mentions h.loaded (.inl hindex)) (fun _ _ => trivial) with
      herror | ⟨c, middle, -, -, hok⟩
    · have hwedged := Tableau.isWedged_of_removeVariable (hquiet.sound h.loaded).consistent
        hquiet.snapshot_eq herror
      have herror' : Tableau.removeVariable index
          (model.quiet.withoutVariable index).tableau = .error _ _ := herror
      rw [onTableau_of_error herror']
      rw [← root_eq hquiet.snapshot_eq] at hwedged
      exact h.quiet.strand_variable hindex hwedged
    · have hok' : Tableau.removeVariable index
          (model.quiet.withoutVariable index).tableau = .ok () _ := hok
      rw [onTableau_of_ok hok'] at hsound hcarries ⊢
      exact ⟨hsound, hcarries.orderly, h.loaded⟩
  · have herror : removeVariable index model = .error _ model.quiet :=
      (bind_of_ok (discardSearch_eq model)).trans
        (bind_of_error (requireVariable_of_not_mem hindex))
    rw [herror]
    exact h.quiet.agrees

theorem dropSlack_agrees (h : model.IsSettled) (hquiet : model.tableau.snapshot = none)
    (hslack : slack ∈ model.constraints.keys) :
    Ends (dropSlack model.isLoaded slack (model.withoutConstraint slack)) (fun _ => IsSettled)
      AgreesAfter := by
  have hisQuiet : model.IsQuiet := by
    rw [← quiet_eq hquiet]
    exact h.sound.isQuiet
  have hsound := dropSlack_sound hisQuiet hslack
  have hcarries : Ends (dropSlack model.isLoaded slack (model.withoutConstraint slack))
      (fun _ => Carries (fun _ => False) model) fun _ => Carries (fun _ => False) model :=
    dropSlack_carries h.orderly hquiet hslack
  rw [dropSlack, if_pos h.loaded] at hsound hcarries ⊢
  rcases Tableau.removeConstraint_cases (fun _ _ _ => True) (hisQuiet.sound h.loaded) hquiet
    (hisQuiet.mentions h.loaded (.inr hslack)) (fun _ _ => trivial) with
    herror | ⟨r, middle, -, -, hok⟩
  · have hwedged := Tableau.isWedged_of_removeConstraint (hisQuiet.sound h.loaded).consistent
      hquiet herror
    have herror' : Tableau.removeConstraint slack
        (model.withoutConstraint slack).tableau = .error _ _ := herror
    rw [onTableau_of_error herror']
    rw [← root_eq hquiet] at hwedged
    exact h.strand_slack hslack hwedged
  · have hok' : Tableau.removeConstraint slack
        (model.withoutConstraint slack).tableau = .ok () _ := hok
    rw [onTableau_of_ok hok'] at hsound hcarries ⊢
    exact ⟨hsound.isSound, hcarries.orderly, h.loaded⟩

theorem dropRelaxation_agrees (h : model.IsSettled) (constraint : Constraint α) :
    Ends (dropRelaxation constraint model) (fun _ => IsSettled) AgreesAfter := by
  unfold dropRelaxation
  cases constraint.relaxation with
  | none => exact h
  | some relaxation =>
    simp only [bind, EStateM.bind, run_get]
    split
    · exact removeVariable_agrees h relaxation
    · exact h

theorem removeInequality_agrees (h : model.IsSettled) (slack : Nat) :
    Ends (removeInequality slack model) (fun _ => IsSettled) AgreesAfter := by
  cases hconstraint : model.constraint? slack with
  | none =>
    rw [removeInequality_of_none hconstraint]
    exact h.quiet.agrees
  | some constraint =>
    rw [removeInequality_of_some hconstraint]
    apply Ends.bind (dropSlack_agrees h.quiet rfl (OrderedMap.mem_keys_of_get? hconstraint))
    intro _ model' hmodel'
    exact dropRelaxation_agrees hmodel' constraint

theorem removeConstraint_agrees (h : model.IsSettled) (reference : ConstraintRef) :
    Ends (removeConstraint reference model) (fun _ => IsSettled) AgreesAfter := by
  apply Ends.forM _ IsSettled _ _ _ model h
  intro slack _ model hmodel
  exact removeInequality_agrees hmodel slack

end Agreement

end Model

namespace Operation

variable {α : Type} [Scalar α]

/-- After every run in which no solve made rounding cuts and no removal was refused, a further
removal from a loaded model leaves a tableau in order, with exactly the slacks and the variables
of the model in its rows and columns; so nothing else takes part in the next solve.  If it fails,
the same holds apart from the variable whose exchange was refused; so a failed removal leaves a
disagreement exactly if it was refused an exchange. -/
theorem agrees_after_removal (precision : α) (options : Options α)
    (operations : List (Operation α))
    (hrun : Along Unstuck (Model.empty precision options) operations) (model : Model α)
    (hmodel : model = after (Model.empty precision options) operations)
    (hloaded : model.isLoaded = true) (operation : Operation α)
    (hremoval : operation.isRemoval = true) :
    Ends (operation.perform model) (fun _ model' => model'.Agrees)
      (fun fault model' => model'.AgreesApartFrom fault.cause.strandedIndex? ∧
        (model'.Agrees ↔ fault.cause.isStuck = false)) := by
  have hsettled : model.IsSettled := by
    refine ⟨?_, ?_, hloaded⟩
    · rw [hmodel]
      exact isSound_after hrun
    · rw [hmodel]
      exact isOrderly_after precision options operations
  have hends : Ends (operation.perform model) (fun _ => Model.IsSettled) Model.AgreesAfter := by
    cases operation with
    | removeConstraint reference => exact Model.removeConstraint_agrees hsettled reference
    | removeVariable index => exact Model.removeVariable_agrees hsettled index
    | _ => exact absurd hremoval (by simp [isRemoval])
  apply hends.mono
  · intro _ model' hmodel'
    exact hmodel'.agrees
  · intro fault model' hfailed
    refine ⟨hfailed, hfailed.agrees_iff.trans ?_⟩
    rw [Cause.isStuck_eq, Option.isSome_eq_false_iff, Option.isNone_iff_eq_none]

/-- A relaxed bound on a variable, solved. -/
def softRun : List (Operation Rat) :=
  [.addVariable ⟨1, none, false, false, .required⟩,
    .atMost 4,
    .addTerm (.inequality 1) 1 0,
    .relax (.inequality 1) 3 ⟨2⟩,
    .maximise,
    .solve ⟨8, 0, 8, fun _ => 0⟩]

theorem softRun_unstuck : Along Unstuck (Model.empty 1e-9 Options.standard) softRun := by
  refine ⟨⟨?_, ?_⟩, ⟨?_, ?_⟩, ⟨?_, ?_⟩, ⟨?_, ?_⟩, ⟨?_, ?_⟩, ⟨fun _ => .inl rfl, ?_⟩, trivial⟩
  all_goals exact fun hkind => absurd hkind (by decide)

theorem agrees_after_removal_softRun :
    ∃ model', (removeConstraint (.inequality 1)).perform
        (after (Model.empty 1e-9 Options.standard) softRun) = .ok () model' ∧
      model'.constraints.keys = [] ∧ model'.Agrees := by
  have hends : Ends ((removeConstraint (.inequality 1)).perform
      (after (Model.empty 1e-9 Options.standard) softRun))
      (fun _ model' => model'.constraints.keys = []) fun _ _ => False := by
    decide +kernel
  obtain ⟨_, model', hok, hkeys⟩ := hends.exists_ok
  have hagrees := agrees_after_removal 1e-9 Options.standard softRun softRun_unstuck _ rfl
    (by decide +kernel) (removeConstraint (.inequality 1)) rfl
  rw [hok] at hagrees
  exact ⟨model', hok, hkeys, hagrees⟩

/-- A bound with a large coefficient, solved. -/
def steepRun : List (Operation Rat) :=
  [.maximise,
    .addVariable ⟨1, none, false, false, .required⟩,
    .atMost 10000000000,
    .addTerm (.inequality 1) 10000000000 0,
    .solve ⟨8, 0, 8, fun _ => 0⟩]

/-- The model after the bound was to be removed.  The slack stands in a column whose only
number is 1e-10, so it cannot enter the basis. -/
def steepModel : Model Rat :=
  (removeConstraint (.inequality 1)).result (after (Model.empty 1e-9 Options.standard) steepRun)

/-- The model has no constraint left, but the tableau has: the next solve is bounded. -/
theorem not_agrees_after_steepRun :
    Along Unstuck (Model.empty 1e-9 Options.standard) steepRun ∧
      (after (Model.empty 1e-9 Options.standard) steepRun).isLoaded = true ∧
      ¬ steepModel.Agrees ∧ steepModel.constraints = [] ∧
      Ends (Model.solve ⟨8, 0, 8, fun _ => 0⟩ steepModel)
        (fun solution _ => solution.isBounded = true ∧ solution.evaluation = .finite 1)
        fun _ _ => False := by
  have hempty : steepModel.constraints = [] := by decide +kernel
  refine ⟨?_, by decide +kernel, ?_, hempty, by decide +kernel⟩
  · refine ⟨⟨?_, ?_⟩, ⟨?_, ?_⟩, ⟨?_, ?_⟩, ⟨?_, ?_⟩, ⟨fun _ => .inl rfl, ?_⟩, trivial⟩
    all_goals exact fun hkind => absurd hkind (by decide)
  · intro hagrees
    have hlabelled : steepModel.root.dictionary.HasVariable 1 :=
      .inr ⟨1, by decide +kernel, by decide +kernel⟩
    have hkind : steepModel.root.isSlack? 1 = some true := by decide +kernel
    have hmem := (hagrees.slack_iff 1).2 ⟨hlabelled, hkind, by simp⟩
    rw [hempty] at hmem
    exact absurd hmem List.not_mem_nil

end Operation

end MixedInteger
