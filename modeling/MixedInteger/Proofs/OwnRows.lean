import Mathlib.Data.List.Nodup
import MixedInteger.Proofs.BasisInvariant

/-!
# Which rows outlive a search

A model stands alone in its tableau when there are as many rows as constraints, as many
columns as variables, and nothing else has a place in them.  Every edit leaves a pending
search first and then changes the rows of the model alone, so a model that stood alone
keeps doing so.  What an edit cannot take away are rows that were there before the search
took its snapshot: the rounding cuts of the first relaxation.

The names over rows and columns are those of the variables and the slacks, so it is
enough to follow the number of columns; that of the rows is then a matter of counting.
-/

namespace MixedInteger

variable {α : Type}

/-! ## Counting rows and columns -/

namespace Dictionary

variable {d : Dictionary α}

/-- The variables of the rows, then those of the columns. -/
def names (d : Dictionary α) : List Nat :=
  d.rows.map (fun r => (d.basicAt r).getD 0) ++ d.columns.map fun c => (d.nonBasicAt c).getD 0

theorem length_names (d : Dictionary α) : d.names.length = (d.height - 1) + (d.width - 1) := by
  simp [names, rows, columns]

theorem IsNamed.nodup_names (h : d.IsNamed) : d.names.Nodup := by
  refine List.nodup_append.2 ⟨List.Nodup.map_on ?_ (List.nodup_range' 1),
    List.Nodup.map_on ?_ (List.nodup_range' 1), ?_⟩
  · intro r hr s hs heq
    obtain ⟨index, hindex⟩ := h.exists_basicAt hr
    obtain ⟨index', hindex'⟩ := h.exists_basicAt hs
    simp only [hindex, hindex', Option.getD_some] at heq
    exact h.basicAt_inj hr hs hindex (heq ▸ hindex')
  · intro c hc e he heq
    obtain ⟨index, hindex⟩ := h.exists_nonBasicAt hc
    obtain ⟨index', hindex'⟩ := h.exists_nonBasicAt he
    simp only [hindex, hindex', Option.getD_some] at heq
    exact h.nonBasicAt_inj hc he hindex (heq ▸ hindex')
  · intro left hleft right hright
    obtain ⟨r, hr, rfl⟩ := List.mem_map.1 hleft
    obtain ⟨c, hc, rfl⟩ := List.mem_map.1 hright
    obtain ⟨index, hindex⟩ := h.exists_basicAt hr
    obtain ⟨index', hindex'⟩ := h.exists_nonBasicAt hc
    rw [hindex, hindex']
    exact h.basicAt_ne_nonBasicAt hr hc hindex hindex'

theorem IsConsistent.mem_names_iff (h : d.IsConsistent) (index : Nat) :
    index ∈ d.names ↔ d.Mentions index := by
  simp only [names, List.mem_append, List.mem_map, Mentions, Option.isSome_iff_exists,
    h.row?_eq_some_iff, h.column?_eq_some_iff]
  refine or_congr (exists_congr fun r => and_congr_right fun hr => ?_)
    (exists_congr fun c => and_congr_right fun hc => ?_)
  · obtain ⟨name, hname⟩ := h.isNamed.exists_basicAt hr
    simp [hname]
  · obtain ⟨name, hname⟩ := h.isNamed.exists_nonBasicAt hc
    simp [hname]

end Dictionary

namespace Model

/-- The tableau has a row for each constraint, a column for each variable, and no others. -/
structure StandsAlone (model : Model α) : Prop where
  height_eq : model.tableau.dictionary.height = model.constraints.length + 1
  width_eq : model.tableau.dictionary.width = model.indices.length + 1
  basic_own : ∀ r ∈ model.tableau.dictionary.rows,
    ∀ index, model.tableau.dictionary.basicAt r = some index →
      index ∈ model.indices ∨ index ∈ model.constraints.keys
  nonBasic_own : ∀ c ∈ model.tableau.dictionary.columns,
    ∀ index, model.tableau.dictionary.nonBasicAt c = some index →
      index ∈ model.indices ∨ index ∈ model.constraints.keys

/-- Once a pending search is left, there are as many columns as variables. -/
def HasOwnColumns (model : Model α) : Prop :=
  model.isLoaded = true →
    model.tableau.discardSearch.dictionary.width = model.indices.length + 1

/-- What the rows and columns of a model have room for. -/
theorem Fits.height_add_width {model : Model α} {t : Tableau α} (h : Fits model t)
    (hloaded : model.isLoaded = true) :
    t.dictionary.height + t.dictionary.width =
      model.constraints.length + model.indices.length + 2 := by
  have hconsistent := (h.sound hloaded).consistent
  have hheight : 0 < t.dictionary.height := hconsistent.rows_agree.size_pos
  have hwidth : 0 < t.dictionary.width := hconsistent.columns_agree.size_pos
  have hown : (model.indices ++ model.constraints.keys).Nodup := by
    refine List.nodup_append.2 ⟨h.indices_nodup, h.slacks_nodup, ?_⟩
    rintro index hindex slack hslack rfl
    exact h.apart index hindex hslack
  have hsame : t.dictionary.names.Perm (model.indices ++ model.constraints.keys) := by
    rw [List.perm_ext_iff_of_nodup hconsistent.isNamed.nodup_names hown]
    intro index
    rw [hconsistent.mem_names_iff, (h.sound hloaded).mentions_iff, h.known_iff, List.mem_append]
  have hlength := hsame.length_eq
  have hkeys : model.constraints.keys.length = model.constraints.length := List.length_map _
  rw [Dictionary.length_names, List.length_append, hkeys] at hlength
  omega

/-- A loaded model outside a search stands alone if its columns are its own. -/
theorem IsQuiet.standsAlone {model : Model α} (h : model.IsQuiet)
    (hloaded : model.isLoaded = true) (hcolumns : model.HasOwnColumns) : model.StandsAlone := by
  have hconsistent := (h.sound hloaded).consistent
  have hcount := h.height_add_width hloaded
  have hwidth := hcolumns hloaded
  rw [Tableau.discardSearch_eq_self h.snapshot_eq] at hwidth
  have hown {index : Nat} (hmentions : model.tableau.dictionary.Mentions index) :
      index ∈ model.indices ∨ index ∈ model.constraints.keys :=
    (h.known_iff index).1 (((h.sound hloaded).mentions_iff index).1 hmentions)
  refine ⟨by omega, hwidth, ?_, ?_⟩
  · intro r hr index hindex
    exact hown (.inl (by rw [hconsistent.isNamed.row?_eq_some hr hindex]; rfl))
  · intro c hc index hindex
    exact hown (.inr (by rw [hconsistent.isNamed.column?_eq_some hc hindex]; rfl))

end Model

/-! ## Edits of a tableau -/

namespace Tableau

variable [Scalar α] {t : Tableau α} {index slack : Nat}

theorem changeCoefficient_width (h : t.IsSound) (hquiet : t.snapshot = none)
    (hslack : t.dictionary.Mentions slack) (hindex : t.dictionary.Mentions index)
    (hne : slack ≠ index) (isUpperBound : Bool) (difference : α) :
    Ends (changeCoefficient slack isUpperBound index difference t)
      (fun _ t' => t'.snapshot = none ∧ t'.dictionary.width = t.dictionary.width)
      fun _ _ => True := by
  rcases changeCoefficient_cases (fun _ _ _ => True) h hquiet hslack hindex hne isUpperBound
    difference (fun _ _ => trivial) with herror | ⟨r, middle, row, hrun, -, -, -, hok⟩
  · rw [herror]
    trivial
  · rw [hok]
    exact ⟨hrun.1.snapshot.trans hquiet, hrun.2.width_eq⟩

theorem changeRhs_width (hquiet : t.snapshot = none) (hslack : t.dictionary.Mentions slack)
    (isUpperBound : Bool) (difference : α) :
    Ends (changeRhs slack isUpperBound difference t)
      (fun _ t' => t'.snapshot = none ∧ t'.dictionary.width = t.dictionary.width)
      fun _ _ => True := by
  rcases changeRhs_cases hquiet hslack isUpperBound difference with ⟨r, -, hok⟩ | ⟨c, -, hok⟩
  · rw [hok]
    exact ⟨hquiet, rfl⟩
  · rw [hok]
    exact ⟨hquiet, rfl⟩

theorem changeCost_width (hquiet : t.snapshot = none) (hindex : t.dictionary.Mentions index)
    (priority : Priority) (minimises : Bool) (difference : α) :
    Ends (changeCost index priority minimises difference t)
      (fun _ t' => t'.snapshot = none ∧ t'.dictionary.width = t.dictionary.width)
      fun _ _ => True := by
  have hwidth (change : Array α → Array α) :
      (t.dictionary.modifyObjective priority change).width = t.dictionary.width := by
    rw [Dictionary.width, Dictionary.nonBasic_modifyObjective, Dictionary.width]
  rcases changeCost_cases hquiet hindex priority minimises difference with
    ⟨c, -, hok⟩ | ⟨r, -, hok⟩
  · rw [hok]
    exact ⟨hquiet, hwidth _⟩
  · rw [hok]
    exact ⟨hquiet, hwidth _⟩

theorem removeConstraint_width (h : t.IsSound) (hquiet : t.snapshot = none)
    (hslack : t.dictionary.Mentions slack) :
    Ends (removeConstraint slack t)
      (fun _ t' => t'.snapshot = none ∧ t'.dictionary.width = t.dictionary.width)
      fun _ _ => True := by
  rcases removeConstraint_cases (fun _ _ _ => True) h hquiet hslack (fun _ _ => trivial) with
    herror | ⟨r, middle, hrun, -, hok⟩
  · rw [herror]
    trivial
  · rw [hok]
    exact ⟨hrun.1.snapshot.trans hquiet, hrun.2.width_eq⟩

theorem removeVariable_width (h : t.IsSound) (hquiet : t.snapshot = none)
    (hindex : t.dictionary.Mentions index) :
    Ends (removeVariable index t)
      (fun _ t' => t'.snapshot = none ∧ t'.dictionary.width + 1 = t.dictionary.width)
      fun _ _ => True := by
  rcases removeVariable_cases (fun _ _ _ => True) h hquiet hindex (fun _ _ => trivial) with
    herror | ⟨c, middle, hrun, hcolumn, hok⟩
  · rw [herror]
    trivial
  · rw [hok]
    refine ⟨hrun.1.snapshot.trans hquiet, ?_⟩
    have hconsistent := hrun.2.consistent h.consistent
    have hc := (Dictionary.mem_columns.1 (hconsistent.column?_eq_some_iff.1 hcolumn).1).2
    have hsize : (Dictionary.swapErase middle.dictionary.nonBasic c).size + 1 =
        middle.dictionary.width := by
      rw [Dictionary.size_swapErase]
      exact Nat.sub_add_cancel (Nat.one_le_of_lt hc)
    exact hsize.trans hrun.2.width_eq

end Tableau

/-! ## Edits of a model -/

namespace Model

/-- What an edit makes of a model: no search is pending, and the columns of a loaded model
are still its own. -/
structure IsEditOf (model model' : Model α) : Prop where
  quiet : model'.tableau.snapshot = none
  isLoaded : model'.isLoaded = model.isLoaded
  columns : model.HasOwnColumns → model'.HasOwnColumns

theorem IsEditOf.trans {model model' model'' : Model α} (hfirst : IsEditOf model model')
    (hsecond : IsEditOf model' model'') : IsEditOf model model'' :=
  ⟨hsecond.quiet, hsecond.isLoaded.trans hfirst.isLoaded, hsecond.columns ∘ hfirst.columns⟩

/-- As many columns as variables come or go. -/
theorem IsEditOf.of_width {model model' : Model α} (hquiet : model'.tableau.snapshot = none)
    (hloaded : model'.isLoaded = model.isLoaded)
    (hwidth : model.isLoaded = true →
      model'.tableau.dictionary.width + model.indices.length =
        model.quiet.tableau.dictionary.width + model'.indices.length) :
    IsEditOf model model' := by
  refine ⟨hquiet, hloaded, ?_⟩
  intro hcolumns hloaded'
  rw [hloaded] at hloaded'
  have hbefore : model.quiet.tableau.dictionary.width = model.indices.length + 1 :=
    hcolumns hloaded'
  have hafter := hwidth hloaded'
  rw [Tableau.discardSearch_eq_self hquiet]
  omega

variable [Scalar α] {model : Model α} {index slack : Nat}

theorem addVariable_isEditOf (declaration : Declaration α) (model : Model α) :
    Ends (addVariable declaration model) (fun _ => IsEditOf model) fun _ _ => True := by
  rw [addVariable_eq]
  obtain ⟨tableau, indices, integers, constraints, minimises, options, isLoaded, next⟩ := model
  cases isLoaded with
  | false => exact .of_width rfl rfl (by simp)
  | true =>
    refine .of_width rfl rfl fun _ => ?_
    change (Tableau.pushVariable _ _ _ _).width + indices.length = _ + (indices ++ [_]).length
    rw [Tableau.width_pushVariable, List.length_append]
    exact Nat.add_right_comm ..

theorem addInequality_isEditOf (rhs : α) (isUpperBound : Bool) (model : Model α) :
    Ends (addInequality rhs isUpperBound model) (fun _ => IsEditOf model) fun _ _ => True := by
  rw [addInequality_eq]
  obtain ⟨tableau, indices, integers, constraints, minimises, options, isLoaded, next⟩ := model
  cases isLoaded with
  | false => exact .of_width rfl rfl (by simp)
  | true => exact .of_width rfl rfl fun _ => rfl

omit [Scalar α] in
/-- An edit of the tableau that keeps the number of columns, after the model itself has
been changed outside its variables. -/
theorem onTableau_isEditOf {action : Tableau.Action α Unit} {changed : Model α}
    (hloaded : changed.isLoaded = model.isLoaded) (hindices : changed.indices = model.indices)
    (haction : Ends (action changed.tableau)
      (fun _ t' => t'.snapshot = none ∧
        t'.dictionary.width = model.quiet.tableau.dictionary.width) fun _ _ => True) :
    Ends (onTableau action changed) (fun _ => IsEditOf model) fun _ _ => True := by
  apply ends_onTableau
  apply haction.success
  rintro _ t' ⟨hquiet, hwidth⟩
  refine .of_width hquiet hloaded fun _ => ?_
  rw [hindices]
  exact congrArg (· + _) hwidth

theorem setInequalityCoefficient_isEditOf (h : model.IsSound) (hindex : index ∈ model.indices)
    (slack : Nat) (coefficient : α) :
    Ends (setInequalityCoefficient slack coefficient index model) (fun _ => IsEditOf model)
      fun _ _ => True := by
  have hquiet := h.isQuiet
  cases hconstraint : model.constraint? slack with
  | none =>
    rw [setInequalityCoefficient_of_none hconstraint]
    trivial
  | some constraint =>
    have hslack : slack ∈ model.constraints.keys := OrderedMap.mem_keys_of_get? hconstraint
    rw [setInequalityCoefficient_of_some hconstraint]
    split
    · next hchange =>
      have hloaded : model.quiet.isLoaded = true := (Bool.and_eq_true_iff.1 hchange).1
      have hne : slack ≠ index := by
        rintro rfl
        exact hquiet.apart slack hindex hslack
      exact onTableau_isEditOf rfl rfl (Tableau.changeCoefficient_width (hquiet.sound hloaded)
        hquiet.snapshot_eq (hquiet.mentions hloaded (.inr hslack))
        (hquiet.mentions hloaded (.inl hindex)) hne _ _)
    · exact .of_width rfl rfl fun _ => rfl

theorem setInequalityRhs_isEditOf (h : model.IsSound) (slack : Nat) (rhs : α) :
    Ends (setInequalityRhs slack rhs model) (fun _ => IsEditOf model) fun _ _ => True := by
  have hquiet := h.isQuiet
  cases hconstraint : model.constraint? slack with
  | none =>
    rw [setInequalityRhs_of_none hconstraint]
    trivial
  | some constraint =>
    have hslack : slack ∈ model.constraints.keys := OrderedMap.mem_keys_of_get? hconstraint
    rw [setInequalityRhs_of_some hconstraint]
    split
    · next hchange =>
      have hloaded : model.quiet.isLoaded = true := (Bool.and_eq_true_iff.1 hchange).1
      exact onTableau_isEditOf rfl rfl (Tableau.changeRhs_width hquiet.snapshot_eq
        (hquiet.mentions hloaded (.inr hslack)) _ _)
    · exact .of_width rfl rfl fun _ => rfl

theorem setCost_isEditOf (h : model.IsSound) (cost : α) (index : Nat) :
    Ends (setCost cost index model) (fun _ => IsEditOf model) fun _ _ => True := by
  have hquiet := h.isQuiet
  by_cases hindex : index ∈ model.indices
  · obtain ⟨data, hdata⟩ := Option.isSome_iff_exists.1
      ((hquiet.known_iff index).2 (.inl hindex))
    rw [setCost_of_mem hindex hdata]
    split
    · next hchange =>
      have hpriced := hquiet.withCost index cost
      have hloaded : (model.quiet.withCost index cost).isLoaded = true :=
        (Bool.and_eq_true_iff.1 hchange).1
      exact onTableau_isEditOf rfl rfl (Tableau.changeCost_width hpriced.snapshot_eq
        (hpriced.mentions hloaded (.inl hindex)) _ _ _)
    · exact .of_width rfl rfl fun _ => rfl
  · have herror : setCost cost index model = .error _ model :=
      bind_of_error (requireVariable_of_not_mem hindex)
    rw [herror]
    trivial

theorem removeVariable_isEditOf (h : model.IsSound) (index : Nat) :
    Ends (removeVariable index model) (fun _ => IsEditOf model) fun _ _ => True := by
  have hquiet := h.isQuiet
  by_cases hindex : index ∈ model.indices
  · rw [removeVariable_of_mem hindex]
    split
    · next hloaded =>
      apply ends_onTableau
      have hedit := Tableau.removeVariable_width (hquiet.sound hloaded) hquiet.snapshot_eq
        (hquiet.mentions hloaded (.inl hindex))
      apply hedit.success
      rintro _ t' ⟨hsnapshot, hwidth⟩
      refine .of_width hsnapshot rfl fun _ => ?_
      have hlength : (model.indices.erase index).length = model.indices.length - 1 :=
        List.length_erase_of_mem hindex
      have hpos := List.length_pos_of_mem hindex
      change t'.dictionary.width + _ = _ + (model.indices.erase index).length
      omega
    · next hloaded => exact .of_width rfl rfl fun hloaded' => absurd hloaded' hloaded
  · have herror : removeVariable index model = .error _ model.quiet :=
      (bind_of_ok (discardSearch_eq model)).trans
        (bind_of_error (requireVariable_of_not_mem hindex))
    rw [herror]
    trivial

theorem dropSlack_isEditOf (h : model.IsSound) (hslack : slack ∈ model.constraints.keys) :
    Ends (dropSlack model.isLoaded slack (model.quiet.withoutConstraint slack))
      (fun _ => IsEditOf model) fun _ _ => True := by
  have hquiet := h.isQuiet
  unfold dropSlack
  split
  · next hloaded =>
    exact onTableau_isEditOf rfl rfl (Tableau.removeConstraint_width (hquiet.sound hloaded)
      hquiet.snapshot_eq (hquiet.mentions hloaded (.inr hslack)))
  · next hloaded => exact .of_width rfl rfl fun hloaded' => absurd hloaded' hloaded

theorem removeInequality_isEditOf (h : model.IsSound) (slack : Nat) :
    Ends (removeInequality slack model) (fun _ => IsEditOf model) fun _ _ => True := by
  cases hconstraint : model.constraint? slack with
  | none =>
    rw [removeInequality_of_none hconstraint]
    trivial
  | some constraint =>
    have hslack : slack ∈ model.constraints.keys := OrderedMap.mem_keys_of_get? hconstraint
    rw [removeInequality_of_some hconstraint]
    have hsound : Ends (dropSlack model.isLoaded slack (model.quiet.withoutConstraint slack)) _ _ :=
      dropSlack_sound h.isQuiet hslack
    apply Ends.bind (hsound.and_success (dropSlack_isEditOf h hslack))
    rintro _ model' ⟨hquiet', hedit⟩
    unfold dropRelaxation
    cases constraint.relaxation with
    | none => exact hedit
    | some relaxation =>
      simp only [bind, EStateM.bind, run_get]
      split
      · apply (removeVariable_isEditOf hquiet'.isSound relaxation).success
        intro _ model'' hedit'
        exact hedit.trans hedit'
      · exact hedit

/-! ### Edits of all inequalities behind a reference -/

omit [Scalar α] in
theorem slacks_ne_nil (reference : ConstraintRef) : reference.slacks ≠ [] := by
  cases reference <;> simp [ConstraintRef.slacks]

omit [Scalar α] in
/-- One edit of a coefficient after the other. -/
theorem forM_isEditOf (h : model.IsSound) (hindex : index ∈ model.indices)
    (reference : ConstraintRef) {body : Nat → Action α Unit}
    (hsound : ∀ slack model, model.IsSound → index ∈ model.indices →
      Ends (body slack model) (fun _ model' => model'.IsSound ∧ model'.indices = model.indices)
        (fun _ => IsSound))
    (hbody : ∀ slack model, model.IsSound → index ∈ model.indices →
      Ends (body slack model) (fun _ => IsEditOf model) fun _ _ => True) :
    Ends (reference.slacks.forM body model) (fun _ => IsEditOf model) fun _ _ => True := by
  have hall := Ends.forM_related body (fun model => model.IsSound ∧ index ∈ model.indices)
    IsEditOf IsEditOf.trans (slacks_ne_nil reference) (by
      rintro slack - model ⟨hmodel, hmem⟩
      apply ((hsound slack model hmodel hmem).and_success (hbody slack model hmodel hmem)).success
      rintro _ model' ⟨⟨hmodel', hindices⟩, hedit⟩
      exact ⟨⟨hmodel', by rw [hindices]; exact hmem⟩, hedit⟩) model ⟨h, hindex⟩
  exact hall.success fun _ _ hpost => hpost.2

theorem setCoefficient_isEditOf (h : model.IsSound) (reference : ConstraintRef)
    (coefficient : α) (index : Nat) :
    Ends (setCoefficient reference coefficient index model) (fun _ => IsEditOf model)
      fun _ _ => True := by
  refine ends_requireVariable trivial fun hindex => ?_
  apply forM_isEditOf h hindex
  · intro slack model hmodel hmem
    exact (setInequalityCoefficient_sound hmodel hmem slack coefficient).mono
      (fun _ _ hpost => ⟨hpost.1.isSound, hpost.2⟩) (fun _ _ hfailed => hfailed)
  · intro slack model hmodel hmem
    exact setInequalityCoefficient_isEditOf hmodel hmem slack coefficient

theorem addTerm_isEditOf (h : model.IsSound) (reference : ConstraintRef) (coefficient : α)
    (index : Nat) :
    Ends (addTerm reference coefficient index model) (fun _ => IsEditOf model)
      fun _ _ => True := by
  refine ends_requireVariable trivial fun hindex => ?_
  apply forM_isEditOf h hindex
  · intro slack model hmodel hmem
    cases hconstraint : model.constraint? slack with
    | none =>
      rw [bind_of_error (inequality_of_none hconstraint)]
      exact hmodel
    | some constraint =>
      rw [bind_of_ok (inequality_of_some hconstraint)]
      exact (setInequalityCoefficient_sound hmodel hmem slack _).mono
        (fun _ _ hpost => ⟨hpost.1.isSound, hpost.2⟩) (fun _ _ hfailed => hfailed)
  · intro slack model hmodel hmem
    cases hconstraint : model.constraint? slack with
    | none =>
      rw [bind_of_error (inequality_of_none hconstraint)]
      trivial
    | some constraint =>
      rw [bind_of_ok (inequality_of_some hconstraint)]
      exact setInequalityCoefficient_isEditOf hmodel hmem slack _

theorem setRhs_isEditOf (h : model.IsSound) (reference : ConstraintRef) (rhs : α) :
    Ends (setRhs reference rhs model) (fun _ => IsEditOf model) fun _ _ => True := by
  have hall := Ends.forM_related (fun slack => setInequalityRhs slack rhs) IsSound IsEditOf
    IsEditOf.trans (slacks_ne_nil reference) (by
      intro slack _ model hmodel
      apply ((setInequalityRhs_sound hmodel slack rhs).and_success
        (setInequalityRhs_isEditOf hmodel slack rhs)).success
      rintro _ model' ⟨hquiet', hedit⟩
      exact ⟨hquiet'.isSound, hedit⟩) model h
  exact hall.success fun _ _ hpost => hpost.2

theorem removeConstraint_isEditOf (h : model.IsSound) (reference : ConstraintRef) :
    Ends (removeConstraint reference model) (fun _ => IsEditOf model) fun _ _ => True := by
  have hall := Ends.forM_related removeInequality IsSound IsEditOf
    IsEditOf.trans (slacks_ne_nil reference) (by
      intro slack _ model hmodel
      exact (removeInequality_sound hmodel slack).and_success
        (removeInequality_isEditOf hmodel slack)) model h
  exact hall.success fun _ _ hpost => hpost.2

theorem equal_isEditOf (rhs : α) (model : Model α) :
    Ends (equal rhs model) (fun _ => IsEditOf model) fun _ _ => True := by
  apply Ends.bind (addInequality_isEditOf rhs true model)
  intro upper model' hedit
  apply Ends.bind (addInequality_isEditOf rhs false model')
  intro lower model'' hedit'
  exact hedit.trans hedit'

theorem relaxInequality_isEditOf (h : model.IsSound) {relaxation : Nat}
    (hrelaxation : relaxation ∈ model.indices) (slack : Nat) :
    Ends (relaxInequality relaxation slack model) (fun _ => IsEditOf model) fun _ _ => True := by
  unfold relaxInequality
  cases hconstraint : model.constraint? slack with
  | none =>
    rw [bind_of_error (inequality_of_none hconstraint)]
    trivial
  | some constraint =>
    rw [bind_of_ok (inequality_of_some hconstraint)]
    apply Ends.bind (setInequalityCoefficient_isEditOf h hrelaxation slack _)
    intro _ model' hedit
    exact ⟨hedit.quiet, hedit.isLoaded, hedit.columns⟩

/-- A relaxation that is not void is an edit as well. -/
theorem relax_isEditOf (h : model.IsSound) {priority : Priority}
    (hpriority : priority.isRequired = false) (reference : ConstraintRef) (weight : α) :
    Ends (relax reference weight priority model) (fun _ => IsEditOf model) fun _ _ => True := by
  have hnumbered : model.numbered.IsSound :=
    let hfits := h.root_fits
    ⟨h.present_pool, h.present_sound, ⟨hfits.pool, hfits.indices_nodup, hfits.slacks_nodup,
      hfits.apart, hfits.known_iff, hfits.integers_eq, hfits.slack_character,
      hfits.constraint_fits, hfits.sound⟩⟩
  have hdeclared := hnumbered.isQuiet.withVariable (model.relaxationDeclaration weight priority)
  have hedit := addVariable_isEditOf (model.relaxationDeclaration weight priority) model.numbered
  rw [addVariable_eq] at hedit
  rw [relax_eq hpriority]
  apply Ends.bind (forM_isEditOf hdeclared.isSound
    (List.mem_append_right _ (List.mem_singleton.2 rfl)) reference
    (fun slack model hmodel hmem => relaxInequality_sound hmodel hmem slack)
    fun slack model hmodel hmem => relaxInequality_isEditOf hmodel hmem slack)
  intro _ model' hedit'
  have hboth := IsEditOf.trans hedit hedit'
  exact ⟨hboth.quiet, hboth.isLoaded, hboth.columns⟩

theorem setDirection_hasOwnColumns (hcolumns : model.HasOwnColumns) (minimises : Bool) :
    (model.setDirection minimises).HasOwnColumns := by
  unfold setDirection
  split
  · exact hcolumns
  · intro hloaded
    exact absurd hloaded (by simp [negateRelaxationCosts])

/-! ## Solves -/

/-- The columns of a loaded model are its own. -/
theorem HasOwnColumns.ready (hcolumns : model.HasOwnColumns) (h : model.IsSound) :
    model.ready.HasOwnColumns := by
  intro _
  cases hloaded : model.isLoaded with
  | true =>
    rw [ready_of_loaded hloaded]
    exact hcolumns hloaded
  | false =>
    obtain ⟨tableau, hload, -, hsnapshot, -, -, hwith⟩ := load_eq_ok h
    rw [ready_of_not_loaded hloaded, hload]
    change tableau.discardSearch.dictionary.width = _
    rw [Tableau.discardSearch_eq_self hsnapshot]
    exact hwith.width_eq

/-- What is left when the search is left after a solve, however the solve ended: the rows
and columns of the model, and one row for each rounding cut of the first relaxation. -/
theorem size_after_solve (h : model.IsSound) (hcolumns : model.HasOwnColumns) (effort : Effort)
    {solved : Model α} (hsolved : finalState (solve effort model) = solved) :
    solved.isLoaded = true ∧
      solved.tableau.discardSearch.dictionary.height =
        solved.constraints.length + 1 + model.rootCuts effort ∧
      solved.tableau.discardSearch.dictionary.width = solved.indices.length + 1 := by
  obtain ⟨hsolve, hready, hloaded, -⟩ := solve_eq h effort
  have hintegers : ∀ index ∈ model.ready.searchSpace.integers,
      model.ready.tableau.discardSearch.dictionary.Mentions index := by
    intro index hindex
    apply hready.root_fits.mentions hloaded
    change index ∈ model.ready.integers at hindex
    rw [hready.root_fits.integers_eq] at hindex
    exact .inl (List.mem_filter.1 hindex).1
  obtain ⟨hheight, hwidth⟩ := Tableau.size_discardSearch_solve
    (hready.root_fits.sound hloaded) hintegers effort
  have hcount := hready.root_fits.height_add_width hloaded
  have hown := hcolumns.ready h hloaded
  rw [← hsolved, hsolve, finalState_onTableau, rootCuts]
  refine ⟨hloaded, ?_, hwidth.trans hown⟩
  dsimp only
  omega

end Model

/-! ## Along runs -/

namespace Operation

variable [Scalar α] {model : Model α}

def isEdit : Operation α → Bool
  | addVariable _ => true
  | atMost _ => true
  | atLeast _ => true
  | equal _ => true
  | addTerm _ _ _ => true
  | setCoefficient _ _ _ => true
  | setRhs _ _ => true
  | removeConstraint _ => true
  | removeVariable _ => true
  | setCost _ _ => true
  | _ => false

/-- The number of rounding cuts that an operation makes before a search takes its
snapshot. -/
def rootCuts (model : Model α) : Operation α → Nat
  | solve effort => model.rootCuts effort
  | _ => 0

/-- A solve makes no rounding cuts at its first relaxation, and every other operation
succeeds. -/
structure Uncut (model : Model α) (operation : Operation α) : Prop where
  rootCuts_eq_zero : operation.rootCuts model = 0
  succeeds : operation.isSolve = false → ∃ model', operation.perform model = .ok () model'

instance (model : Model α) (operation : Operation α) : Decidable (Uncut model operation) :=
  decidable_of_iff (operation.rootCuts model = 0 ∧
    (operation.isSolve = false → ∃ model', operation.perform model = .ok () model'))
    ⟨fun h => ⟨h.1, h.2⟩, fun h => ⟨h.1, h.2⟩⟩

theorem perform_isEditOf (h : model.IsSound) {operation : Operation α}
    (hedit : operation.isEdit = true) :
    Ends (operation.perform model) (fun _ => Model.IsEditOf model) fun _ _ => True := by
  cases operation with
  | addVariable declaration => exact ends_forEffect (Model.addVariable_isEditOf declaration model)
  | atMost rhs =>
    apply ends_forEffect
    apply Ends.bind (Model.addInequality_isEditOf rhs true model)
    intro slack model' hmodel'
    exact hmodel'
  | atLeast rhs =>
    apply ends_forEffect
    apply Ends.bind (Model.addInequality_isEditOf rhs false model)
    intro slack model' hmodel'
    exact hmodel'
  | equal rhs => exact ends_forEffect (Model.equal_isEditOf rhs model)
  | addTerm reference coefficient index =>
    exact Model.addTerm_isEditOf h reference coefficient index
  | setCoefficient reference coefficient index =>
    exact Model.setCoefficient_isEditOf h reference coefficient index
  | setRhs reference rhs => exact Model.setRhs_isEditOf h reference rhs
  | removeConstraint reference => exact Model.removeConstraint_isEditOf h reference
  | removeVariable index => exact Model.removeVariable_isEditOf h index
  | setCost cost index => exact Model.setCost_isEditOf h cost index
  | _ => exact absurd hedit (by simp [isEdit])

omit [Scalar α] in
theorem isSolve_of_isEdit {operation : Operation α} (hedit : operation.isEdit = true) :
    operation.isSolve = false := by
  cases operation with
  | solve effort => exact absurd hedit (by simp [isEdit])
  | _ => rfl

/-- An operation other than a solve that succeeds keeps a model sound. -/
theorem sound_of_ok (h : model.IsSound) {operation : Operation α}
    (hsolve : operation.isSolve = false) {model' : Model α}
    (hok : operation.perform model = .ok () model') : model'.IsSound := by
  have hunstuck : operation.Unstuck model := by
    refine ⟨fun hsolve' => absurd (hsolve.symm.trans hsolve') (by simp), ?_⟩
    intro _ fault model'' herror
    rw [hok] at herror
    exact absurd herror (by simp)
  have hsound := result_sound h hunstuck
  rwa [result, hok] at hsound

/-- An operation other than a solve that succeeds is an edit, changes the options at most, or
sets the direction. -/
theorem edited_of_ok (h : model.IsSound) {operation : Operation α}
    (hsolve : operation.isSolve = false) {model' : Model α}
    (hok : operation.perform model = .ok () model') :
    model.IsEditOf model' ∨ (∃ options, model' = { model with options := options }) ∨
      ∃ minimises, model' = model.setDirection minimises := by
  by_cases hedit : operation.isEdit = true
  · exact .inl ((perform_isEditOf h hedit).of_ok hok)
  cases operation with
  | setOptions options =>
    injection hok with _ hmodel
    exact .inr (.inl ⟨options, hmodel.symm⟩)
  | minimise =>
    injection hok with _ hmodel
    exact .inr (.inr ⟨true, hmodel.symm⟩)
  | maximise =>
    injection hok with _ hmodel
    exact .inr (.inr ⟨false, hmodel.symm⟩)
  | relax reference weight priority =>
    cases hpriority : priority.isRequired with
    | true =>
      have hrelax : perform (.relax reference weight priority) model = .ok () model := by
        change forEffect (Model.relax reference weight priority) model = _
        rw [forEffect_eq, Model.relax, hpriority]
        rfl
      rw [hrelax] at hok
      injection hok with _ hmodel
      exact .inr (.inl ⟨model.options, hmodel.symm⟩)
    | false =>
      have hedited := ends_forEffect (Model.relax_isEditOf h hpriority reference weight)
      exact .inl (hedited.of_ok hok)
  | solve effort => exact absurd hsolve (by simp [isSolve])
  | _ => exact absurd rfl hedit

/-- An operation other than a solve that succeeds keeps the columns of a model its own. -/
theorem hasOwnColumns_of_ok (h : model.IsSound) (hcolumns : model.HasOwnColumns)
    {operation : Operation α} (hsolve : operation.isSolve = false) {model' : Model α}
    (hok : operation.perform model = .ok () model') : model'.HasOwnColumns := by
  obtain hedit | ⟨options, rfl⟩ | ⟨minimises, rfl⟩ := edited_of_ok h hsolve hok
  · exact hedit.columns hcolumns
  · exact hcolumns
  · exact Model.setDirection_hasOwnColumns hcolumns minimises

/-- Along a run without rounding cuts at the first relaxation of a solve, the columns of
the model stay its own. -/
theorem result_hasOwnColumns (h : model.IsSound) (hcolumns : model.HasOwnColumns)
    {operation : Operation α} (hoperation : operation.Uncut model) :
    (operation.result model).IsSound ∧ (operation.result model).HasOwnColumns := by
  cases hsolve : operation.isSolve with
  | false =>
    obtain ⟨model', hok⟩ := hoperation.succeeds hsolve
    rw [result, hok]
    exact ⟨sound_of_ok h hsolve hok, hasOwnColumns_of_ok h hcolumns hsolve hok⟩
  | true =>
    cases operation with
    | solve effort =>
      have hsame : result (.solve effort) model = finalState (Model.solve effort model) :=
        finalState_forEffect ..
      obtain ⟨-, -, hwidth⟩ := Model.size_after_solve h hcolumns effort hsame.symm
      refine ⟨?_, fun _ => hwidth⟩
      rw [hsame]
      exact Model.solve_sound h effort hoperation.rootCuts_eq_zero
    | _ => exact absurd hsolve (by simp [isSolve])

/-- After a run without rounding cuts at the first relaxation of a solve, in which every
other operation succeeded, a further solve leaves behind the rows and columns of the model
and one row for each rounding cut it made at its own first relaxation.  If it made none,
every edit that succeeds leaves the model alone in its tableau. -/
theorem standsAlone_after_edit (precision : α) (options : Options α)
    (operations : List (Operation α))
    (hrun : Along Uncut (Model.empty precision options) operations) (model solved : Model α)
    (hmodel : model = after (Model.empty precision options) operations) (effort : Effort)
    (hsolved : solved = result (.solve effort) model) :
    solved.tableau.discardSearch.dictionary.height =
        solved.constraints.length + 1 + model.rootCuts effort ∧
      solved.tableau.discardSearch.dictionary.width = solved.indices.length + 1 ∧
      (model.rootCuts effort = 0 → ∀ edit : Operation α, edit.isEdit = true →
        ∀ edited, edit.perform solved = .ok () edited →
          edited.isLoaded = true ∧ edited.tableau.snapshot = none ∧ edited.StandsAlone) := by
  have hkept : model.IsSound ∧ model.HasOwnColumns := by
    rw [hmodel]
    exact invariant_after (fun model => model.IsSound ∧ model.HasOwnColumns)
      (fun _ _ hmodel hoperation => result_hasOwnColumns hmodel.1 hmodel.2 hoperation) hrun
      ⟨(Model.empty_isQuiet precision options).isSound,
        fun hloaded => absurd hloaded (by simp [Model.empty])⟩
  obtain ⟨hsound, hcolumns⟩ := hkept
  have hsame : finalState (Model.solve effort model) = solved := by
    rw [hsolved]
    exact (finalState_forEffect ..).symm
  obtain ⟨hloaded, hheight, hwidth⟩ := Model.size_after_solve hsound hcolumns effort hsame
  refine ⟨hheight, hwidth, ?_⟩
  intro hcuts edit hedit edited hperform
  have hsound' : solved.IsSound := by
    rw [← hsame]
    exact Model.solve_sound hsound effort hcuts
  have hedited := (perform_isEditOf hsound' hedit).of_ok hperform
  have hloaded' : edited.isLoaded = true := hedited.isLoaded.trans hloaded
  have hquiet := (sound_of_ok hsound' (isSolve_of_isEdit hedit) hperform).isQuiet
  rw [Model.quiet_eq hedited.quiet] at hquiet
  exact ⟨hloaded', hedited.quiet, hquiet.standsAlone hloaded' (hedited.columns fun _ => hwidth)⟩

/-- Two integer variables whose sum is to be large, under one bound. -/
def cuttingRun : List (Operation Rat) :=
  [.maximise,
    .addVariable ⟨1, none, true, false, .required⟩,
    .addVariable ⟨1, none, true, false, .required⟩,
    .atMost 3,
    .addTerm (.inequality 2) 2 0,
    .addTerm (.inequality 2) 2 1]

/-- Without rounding cuts a search is made and left again. -/
def plainOptions : Options Rat :=
  { Options.standard with nodeSelection := .depthFirst }

theorem standsAlone_after_cuttingRun :
    ∃ edited, perform (.setRhs (.inequality 2) 7)
        (result (.solve ⟨8, 8, 8, fun _ => 0⟩)
          (after (Model.empty 1e-9 plainOptions) cuttingRun)) = .ok () edited ∧
      edited.StandsAlone := by
  have hends : Ends (perform (.setRhs (.inequality 2) 7)
      (result (.solve ⟨8, 8, 8, fun _ => 0⟩)
        (after (Model.empty 1e-9 plainOptions) cuttingRun)))
        (fun _ _ => True) fun _ _ => False := by
    decide +kernel
  obtain ⟨⟨⟩, edited, hperform, -⟩ := hends.exists_ok
  have hresult := standsAlone_after_edit 1e-9 plainOptions cuttingRun (by decide +kernel) _ _ rfl
    ⟨8, 8, 8, fun _ => 0⟩ rfl
  exact ⟨edited, hperform,
    (hresult.2.2 (by decide +kernel) (.setRhs (.inequality 2) 7) rfl edited hperform).2.2⟩

/-- With rounding cuts the first relaxation becomes integral, no snapshot is taken, and two
rows of cuts stay in the tableau. -/
theorem not_standsAlone_after_cuttingRun :
    Along (fun model operation => ∃ model', operation.perform model = .ok () model')
        (Model.empty 1e-9 { Options.standard with usesRoundingCuts := true }) cuttingRun ∧
      Ends (perform (.setRhs (.inequality 2) 7)
          (result (.solve ⟨8, 8, 8, fun _ => 0⟩)
            (after (Model.empty 1e-9 { Options.standard with usesRoundingCuts := true })
              cuttingRun)))
        (fun _ edited => edited.isLoaded = true ∧ ¬ edited.StandsAlone) fun _ _ => False := by
  refine ⟨by decide +kernel, ?_⟩
  have hends : Ends (perform (.setRhs (.inequality 2) 7)
      (result (.solve ⟨8, 8, 8, fun _ => 0⟩)
        (after (Model.empty 1e-9 { Options.standard with usesRoundingCuts := true })
          cuttingRun)))
      (fun _ edited => edited.isLoaded = true ∧ edited.tableau.dictionary.height = 4 ∧
        edited.constraints.length = 1) fun _ _ => False := by
    decide +kernel
  apply hends.mono
  · rintro _ edited ⟨hloaded, hheight, hlength⟩
    refine ⟨hloaded, fun halone => ?_⟩
    have hown := halone.height_eq
    omega
  · exact fun _ _ hfalse => hfalse

end Operation

end MixedInteger
