import Mathlib.Algebra.Order.BigOperators.Group.Finset
import Mathlib.Algebra.Order.Field.Basic
import MixedInteger.Proofs.Choices
import MixedInteger.Proofs.Validity

/-!
# The verdicts of the simplex method

Over the rationals, and as long as all numbers that a run meets are either zero or
clearly apart from it, the verdicts of the simplex method are right: an infeasible
tableau has no feasible assignment, a bounded one ends at an assignment that is optimal
for the objectives in order of priority, and an unbounded one can be improved without
end along the recorded variable.
-/

namespace MixedInteger

namespace Dictionary

variable {d : Dictionary Rat} {r c : Nat} {x : Nat → Rat}

/-! ## Points of a dictionary -/

def objectives {α : Type} (d : Dictionary α) : List (Array α) :=
  d.row 0 :: d.secondary.map Objective.reducedCosts

def objectiveVector (d : Dictionary Rat) (x : Nat → Rat) : List Rat :=
  d.objectives.map fun row => d.rowValue row x

/-- The basic solution after the variable of a column has moved; the basic variables
follow. -/
def moved (d : Dictionary Rat) (c : Nat) (step : Rat) (index : Nat) : Rat :=
  match d.row? index with
  | some r => d.entry r 0 - d.entry r c * step
  | none => if d.column? index = some c then step else 0

theorem rowValue_valueOf (h : d.IsNamed) (row : Array Rat) :
    d.rowValue row d.valueOf = entryOf row 0 := by
  rw [rowValue, sub_eq_self]
  apply Finset.sum_eq_zero
  intro c hc
  obtain ⟨index, hindex⟩ := h.exists_nonBasicAt (mem_columns_iff_mem_Ico.2 hc)
  have hrow := h.row?_eq_none (mem_columns_iff_mem_Ico.2 hc) hindex
  rw [IsNamed.nameAt_eq hindex, valueOf, hrow, mul_zero]

theorem satisfies_valueOf (h : d.IsNamed) : d.Satisfies d.valueOf := by
  intro r hr index hindex
  rw [rowValue_valueOf h, valueOf, h.row?_eq_some hr hindex]
  rfl

theorem moved_nonBasic (h : d.IsNamed) {e index : Nat} (he : e ∈ d.columns)
    (hindex : d.nonBasicAt e = some index) (step : Rat) :
    d.moved c step index = if e = c then step else 0 := by
  rw [moved, h.row?_eq_none he hindex, h.column?_eq_some he hindex]
  simp only [Option.some.injEq]

theorem rowValue_moved (h : d.IsNamed) (hc : c ∈ d.columns) (row : Array Rat) (step : Rat) :
    d.rowValue row (d.moved c step) = entryOf row 0 - entryOf row c * step := by
  obtain ⟨index, hindex⟩ := h.exists_nonBasicAt hc
  have hrest : d.restValue c row (d.moved c step) = 0 := by
    apply Finset.sum_eq_zero
    intro e he
    obtain ⟨hne, hmem⟩ := Finset.mem_erase.1 he
    obtain ⟨other, hother⟩ := h.exists_nonBasicAt (mem_columns_iff_mem_Ico.2 hmem)
    rw [IsNamed.nameAt_eq hother, moved_nonBasic h (mem_columns_iff_mem_Ico.2 hmem) hother,
      if_neg hne, mul_zero]
  rw [rowValue_eq_rest hc, hrest, IsNamed.nameAt_eq hindex, moved_nonBasic h hc hindex,
    if_pos rfl, add_zero]

theorem satisfies_moved (h : d.IsNamed) (hc : c ∈ d.columns) (step : Rat) :
    d.Satisfies (d.moved c step) := by
  intro r hr index hindex
  rw [rowValue_moved h hc, moved, h.row?_eq_some hr hindex]
  rfl

/-! ## Pivots -/

theorem hasVariable_pivot (h : d.IsNamed) (hr : r ∈ d.rows) (hc : c ∈ d.columns) (index : Nat) :
    (d.pivot r c).HasVariable index ↔ d.HasVariable index := by
  obtain ⟨leaving, hleaving⟩ := h.exists_basicAt hr
  obtain ⟨entering, hentering⟩ := h.exists_nonBasicAt hc
  have hbasicAt := basicAt_pivot hr hleaving hentering
  have hnonBasicAt (e : Nat) : (d.pivot r c).nonBasicAt e =
      if e = c then some leaving else d.nonBasicAt e :=
    nonBasicAt_exchange (mem_columns.1 hc).2 hleaving hentering e
  have hcolumns {e : Nat} : e ∈ (d.pivot r c).columns ↔ e ∈ d.columns := by
    rw [mem_columns, mem_columns, width_pivot]
  constructor
  · rintro (⟨i, hi, hindex⟩ | ⟨e, he, hindex⟩)
    · rw [hbasicAt] at hindex
      split at hindex
      · exact .inr ⟨c, hc, hentering.trans hindex⟩
      · exact .inl ⟨i, mem_rows_pivot.1 hi, hindex⟩
    · rw [hnonBasicAt] at hindex
      split at hindex
      · exact .inl ⟨r, hr, hleaving.trans hindex⟩
      · exact .inr ⟨e, hcolumns.1 he, hindex⟩
  · rintro (⟨i, hi, hindex⟩ | ⟨e, he, hindex⟩)
    · by_cases hir : i = r
      · refine .inr ⟨c, hcolumns.2 hc, ?_⟩
        rw [hnonBasicAt, if_pos rfl, ← hleaving, ← hir]
        exact hindex
      · refine .inl ⟨i, mem_rows_pivot.2 hi, ?_⟩
        rw [hbasicAt, if_neg hir]
        exact hindex
    · by_cases hec : e = c
      · refine .inl ⟨r, mem_rows_pivot.2 hr, ?_⟩
        rw [hbasicAt, if_pos rfl, ← hentering, ← hec]
        exact hindex
      · refine .inr ⟨e, hcolumns.2 he, ?_⟩
        rw [hnonBasicAt, if_neg hec]
        exact hindex

theorem objectives_pivot (h : d.HasBasis) (hr : r ∈ d.rows) :
    (d.pivot r c).objectives =
      d.objectives.map (eliminate (scale (d.row r) (d.entry r c)) c (d.entry r c)) := by
  rw [objectives, objectives, List.map_cons, row_zero_pivot h hr, pivot, List.map_map, List.map_map]
  rfl

theorem size_of_mem_objectives (h : d.HasBasis) (hheight : 0 < d.height) {row : Array Rat}
    (hrow : row ∈ d.objectives) : row.size = d.width := by
  rcases List.mem_cons.1 hrow with rfl | hsecondary
  · exact h.row_size 0 hheight
  · obtain ⟨objective, hobjective, rfl⟩ := List.mem_map.1 hsecondary
    exact h.objective_size objective hobjective

theorem PivotExact.exact_of_mem_objectives (h : d.PivotExact r c) {row : Array Rat}
    (hrow : row ∈ d.objectives) :
    entryOf row c = 0 ∨ Scalar.pivotZero < Scalar.abs (entryOf row c) := by
  rcases List.mem_cons.1 hrow with rfl | hsecondary
  · exact h.column_exact 0
  · obtain ⟨objective, hobjective, rfl⟩ := List.mem_map.1 hsecondary
    exact h.secondary_exact objective hobjective

theorem objectiveVector_pivot (h : d.HasBasis) (hr : r ∈ d.rows) (hc : c ∈ d.columns)
    (hkeeps : d.PivotKeeps r c) (hx : d.Satisfies x) :
    (d.pivot r c).objectiveVector x = d.objectiveVector x := by
  obtain ⟨leaving, hleaving⟩ := h.exists_basicAt hr
  obtain ⟨hpos, hlt⟩ := mem_rows.1 hr
  rw [objectiveVector, objectives_pivot h hr, List.map_map, objectiveVector]
  apply List.map_congr_left
  intro row hrow
  exact rowValue_eliminate h hr hc hleaving hkeeps
    (size_of_mem_objectives h (Nat.lt_trans hpos hlt) hrow)
    (hkeeps.1.exact_of_mem_objectives hrow) (hx r hr leaving hleaving)

/-- Pivots keep the variables, the solutions and their objectives. -/
structure SameProgram (d d' : Dictionary Rat) : Prop where
  hasVariable_iff : ∀ index, d'.HasVariable index ↔ d.HasVariable index
  satisfies_iff : ∀ x, d'.Satisfies x ↔ d.Satisfies x
  objectiveVector_eq : ∀ x, d.Satisfies x → d'.objectiveVector x = d.objectiveVector x

theorem PivotsTo.sameProgram {final : Dictionary Rat} (hrun : PivotsTo PivotKeeps d final)
    (h : d.HasBasis) : SameProgram d final := by
  induction hrun with
  | refl d => exact ⟨fun _ => Iff.rfl, fun _ => Iff.rfl, fun _ _ => rfl⟩
  | step hr hc hkeeps _ ih =>
    have hrest := ih (h.pivot hr hc)
    refine ⟨?_, ?_, ?_⟩
    · intro index
      exact (hrest.hasVariable_iff index).trans (hasVariable_pivot h.toIsNamed hr hc index)
    · intro x
      exact (hrest.satisfies_iff x).trans (satisfies_pivot h hr hc hkeeps)
    · intro x hx
      rw [hrest.objectiveVector_eq x ((satisfies_pivot h hr hc hkeeps).2 hx),
        objectiveVector_pivot h hr hc hkeeps hx]

end Dictionary

/-! ## Separated tableaus -/

namespace Tableau

variable {t : Tableau Rat} {r c : Nat} {entering : Entering} {x : Nat → Rat}

/-- A number is zero or counts as different from zero everywhere. -/
def IsClear (t : Tableau Rat) (value : Rat) : Prop :=
  value = 0 ∨ t.precision < |value| ∧ Scalar.pivotZero < |value|

/-- All numbers of a tableau are zero or clearly apart from it, and so are the ratios
of right-hand sides. -/
structure IsSeparated (t : Tableau Rat) : Prop where
  precision_pos : 0 < t.precision
  entry_clear : ∀ r c, t.IsClear (t.dictionary.entry r c)
  secondary_clear : ∀ objective ∈ t.dictionary.secondary, ∀ c,
    t.IsClear (Dictionary.entryOf objective.reducedCosts c)
  ratio_clear : ∀ r ∈ t.dictionary.rows, ∀ c ∈ t.dictionary.columns,
    t.dictionary.entry r 0 ≠ 0 → t.dictionary.entry r c ≠ 0 →
      t.precision < |t.dictionary.entry r 0 / t.dictionary.entry r c|

instance (t : Tableau Rat) (value : Rat) : Decidable (t.IsClear value) :=
  inferInstanceAs (Decidable (value = 0 ∨ t.precision < |value| ∧ Scalar.pivotZero < |value|))

/-- Only the entries that are there have to be looked at. -/
theorem isSeparated_iff :
    t.IsSeparated ↔ 0 < t.precision ∧
      (∀ r < t.dictionary.matrix.size, ∀ c < (t.dictionary.row r).size,
        t.IsClear (t.dictionary.entry r c)) ∧
      (∀ objective ∈ t.dictionary.secondary, ∀ c < objective.reducedCosts.size,
        t.IsClear (Dictionary.entryOf objective.reducedCosts c)) ∧
      ∀ r ∈ t.dictionary.rows, ∀ c ∈ t.dictionary.columns,
        t.dictionary.entry r 0 ≠ 0 → t.dictionary.entry r c ≠ 0 →
          t.precision < |t.dictionary.entry r 0 / t.dictionary.entry r c| := by
  constructor
  · intro h
    exact ⟨h.precision_pos, fun r _ c _ => h.entry_clear r c,
      fun objective hobjective c _ => h.secondary_clear objective hobjective c, h.ratio_clear⟩
  · intro h
    obtain ⟨hprecision, hentry, hsecondary, hratio⟩ := h
    refine ⟨hprecision, ?_, ?_, hratio⟩
    · intro r c
      by_cases hr : r < t.dictionary.matrix.size
      · by_cases hc : c < (t.dictionary.row r).size
        · exact hentry r hr c hc
        · exact .inl (Dictionary.entryOf_of_size_le (Nat.le_of_not_lt hc))
      · left
        rw [Dictionary.entry, Dictionary.row_eq, Array.getElem?_eq_none (Nat.le_of_not_lt hr)]
        exact Dictionary.entryOf_of_size_le (Nat.zero_le c)
    · intro objective hobjective c
      by_cases hc : c < objective.reducedCosts.size
      · exact hsecondary objective hobjective c hc
      · exact .inl (Dictionary.entryOf_of_size_le (Nat.le_of_not_lt hc))

instance (t : Tableau Rat) : Decidable t.IsSeparated :=
  decidable_of_iff _ isSeparated_iff.symm

theorem IsClear.eq_zero_of_le {value : Rat} (h : t.IsClear value) (hvalue : |value| ≤ t.precision) :
    value = 0 := by
  rcases h with hzero | hlarge
  · exact hzero
  · exact absurd hlarge.1 (not_lt.2 hvalue)

theorem IsClear.nonneg_of_le {value : Rat} (h : t.IsClear value) (hvalue : -t.precision ≤ value) :
    0 ≤ value := by
  by_contra hneg
  have habs : |value| = -value := abs_of_neg (not_le.1 hneg)
  have hzero := h.eq_zero_of_le (by rw [habs]; linarith)
  exact hneg (le_of_eq hzero.symm)

theorem IsClear.nonpos_of_le {value : Rat} (h : t.IsClear value) (hvalue : value ≤ t.precision) :
    value ≤ 0 := by
  by_contra hpos
  have habs : |value| = value := abs_of_pos (not_le.1 hpos)
  have hzero := h.eq_zero_of_le (by rw [habs]; exact hvalue)
  exact hpos (le_of_eq hzero)

theorem IsClear.pivot_exact {value : Rat} (h : t.IsClear value) :
    value = 0 ∨ Scalar.pivotZero < Scalar.abs value := by
  rw [scalar_abs_eq]
  rcases h with hzero | hlarge
  · exact .inl hzero
  · exact .inr hlarge.2

theorem IsSeparated.pivotExact (h : t.IsSeparated) (r c : Nat) : t.dictionary.PivotExact r c :=
  ⟨fun e => (h.entry_clear r e).pivot_exact, fun i => (h.entry_clear i c).pivot_exact,
    fun objective hobjective => (h.secondary_clear objective hobjective c).pivot_exact⟩

theorem IsSeparated.clear_of_mem_objectives (h : t.IsSeparated) {row : Array Rat}
    (hrow : row ∈ t.dictionary.objectives) (c : Nat) : t.IsClear (Dictionary.entryOf row c) := by
  rcases List.mem_cons.1 hrow with rfl | hsecondary
  · exact h.entry_clear 0 c
  · obtain ⟨objective, hobjective, rfl⟩ := List.mem_map.1 hsecondary
    exact h.secondary_clear objective hobjective c

/-- The variables that may not be negative are not. -/
def Admits (t : Tableau Rat) (x : Nat → Rat) : Prop :=
  ∀ index, t.dictionary.HasVariable index → t.isFree (some index) = false → 0 ≤ x index

def IsFeasiblePoint (t : Tableau Rat) (x : Nat → Rat) : Prop :=
  t.dictionary.Satisfies x ∧ t.Admits x

def HasFeasibleBasis (t : Tableau Rat) : Prop :=
  ∀ r, t.IsRestrictedRow r → 0 ≤ t.dictionary.entry r 0

theorem IsSeparated.hasFeasibleBasis (h : t.IsSeparated) (hviolated : t.violatedRow? = none) :
    t.HasFeasibleBasis := by
  intro r hr
  exact (h.entry_clear r 0).nonneg_of_le (violatedRow?_eq_none_iff.1 hviolated r hr)

/-- A point respects the restrictions if its basic and non-basic variables do. -/
theorem admits_iff (h : t.dictionary.IsNamed) :
    t.Admits x ↔
      (∀ r index, t.IsRestrictedRow r → t.dictionary.basicAt r = some index → 0 ≤ x index) ∧
        ∀ c ∈ t.dictionary.columns, t.isFree (t.dictionary.nonBasicAt c) = false →
          0 ≤ x (t.dictionary.nameAt c) := by
  constructor
  · intro hx
    constructor
    · intro r index hr hindex
      apply hx index (.inl ⟨r, hr.1, hindex⟩)
      rw [← hindex]
      exact hr.2
    · intro c hc hfree
      obtain ⟨index, hindex⟩ := h.exists_nonBasicAt hc
      rw [Dictionary.IsNamed.nameAt_eq hindex]
      apply hx index (.inr ⟨c, hc, hindex⟩)
      rw [← hindex]
      exact hfree
  · rintro ⟨hbasic, hnonBasic⟩ index (⟨r, hr, hindex⟩ | ⟨c, hc, hindex⟩) hfree
    · exact hbasic r index ⟨hr, by rw [hindex]; exact hfree⟩ hindex
    · rw [← Dictionary.IsNamed.nameAt_eq hindex]
      exact hnonBasic c hc (by rw [hindex]; exact hfree)

theorem admits_valueOf (h : t.dictionary.IsNamed) (hfeasible : t.HasFeasibleBasis) :
    t.Admits t.dictionary.valueOf := by
  rw [admits_iff h]
  constructor
  · intro r index hr hindex
    have hvalue : t.dictionary.valueOf index = t.dictionary.entry r 0 := by
      rw [Dictionary.valueOf, h.row?_eq_some hr.1 hindex]
    rw [hvalue]
    exact hfeasible r hr
  · intro c hc _
    obtain ⟨index, hindex⟩ := h.exists_nonBasicAt hc
    rw [Dictionary.IsNamed.nameAt_eq hindex, Dictionary.valueOf, h.row?_eq_none hc hindex]

/-! ## Infeasible tableaus -/

/-- A row that nothing repairs keeps its variable negative. -/
theorem not_isFeasiblePoint_of_infeasible (h : t.dictionary.IsNamed) (hseparated : t.IsSeparated)
    (hstep : t.phaseOneStep = .infeasible) : ¬ t.IsFeasiblePoint x := by
  rintro ⟨hx, hadmits⟩
  obtain ⟨r, hviolated, hnone⟩ := phaseOneStep_eq_infeasible_iff.1 hstep
  obtain ⟨hr, hnegative⟩ := of_violatedRow? hviolated
  obtain ⟨hbasic, hnonBasic⟩ := (admits_iff h).1 hadmits
  obtain ⟨index, hindex⟩ := h.exists_basicAt hr.1
  have hterms : 0 ≤ ∑ c ∈ Finset.Ico 1 t.dictionary.width,
      Dictionary.entryOf (t.dictionary.row r) c * x (t.dictionary.nameAt c) := by
    apply Finset.sum_nonneg
    intro c hc
    have hc' := Dictionary.mem_columns_iff_mem_Ico.2 hc
    have hentry : t.IsClear (Dictionary.entryOf (t.dictionary.row r) c) :=
      hseparated.entry_clear r c
    by_cases hlarge : t.precision < |t.dictionary.entry r c|
    · -- The column does not repair the row, so its entry is positive and it is restricted.
      have hnot := repairingColumn?_eq_none_iff.1 hnone c
      have hpositive : 0 ≤ Dictionary.entryOf (t.dictionary.row r) c := by
        by_contra hneg
        exact hnot ⟨hc', hlarge, .inl (not_le.1 hneg)⟩
      have hrestricted : t.isFree (t.dictionary.nonBasicAt c) = false := by
        rw [← Bool.not_eq_true]
        intro hfree
        exact hnot ⟨hc', hlarge, .inr hfree⟩
      exact mul_nonneg hpositive (hnonBasic c hc' hrestricted)
    · rw [hentry.eq_zero_of_le (not_lt.1 hlarge), zero_mul]
  have hnegative' : x index < 0 := by
    calc x index
        = t.dictionary.rowValue (t.dictionary.row r) x := hx r hr.1 index hindex
      _ ≤ t.dictionary.entry r 0 := sub_le_self _ hterms
      _ < -t.precision := hnegative
      _ < 0 := neg_neg_of_pos hseparated.precision_pos
  exact absurd (hbasic r index hr hindex) (not_le.2 hnegative')

/-! ## Optimal tableaus -/

/-- Where an objective promises nothing, no variable can make it smaller. -/
theorem mul_nonpos_of_mostPromising? {row : Array Rat}
    (hclear : ∀ c, t.IsClear (Dictionary.entryOf row c)) {columns : List Nat}
    (hnone : t.mostPromising? row columns = none) {c : Nat}
    (hzero : c ∉ columns → x (t.dictionary.nameAt c) = 0)
    (hnonneg : t.isFree (t.dictionary.nonBasicAt c) = false → 0 ≤ x (t.dictionary.nameAt c)) :
    Dictionary.entryOf row c * x (t.dictionary.nameAt c) ≤ 0 := by
  by_cases hmem : c ∈ columns
  · obtain ⟨hupper, hfree⟩ := mostPromising?_eq_none_iff.1 hnone c hmem
    have hnonpos := (hclear c).nonpos_of_le hupper
    cases hrestricted : t.isFree (t.dictionary.nonBasicAt c) with
    | false => exact mul_nonpos_of_nonpos_of_nonneg hnonpos (hnonneg hrestricted)
    | true =>
      have hentry : 0 ≤ Dictionary.entryOf row c := by
        rcases hfree hrestricted with hlow | hlow
        · exact (hclear c).nonneg_of_le hlow
        · exact hlow
      rw [le_antisymm hnonpos hentry, zero_mul]
  · rw [hzero hmem, mul_zero]

/-- A variable that contributes nothing is zero, unless the objective is indifferent to
it. -/
theorem eq_zero_of_not_tied (hprecision : 0 < t.precision) {row : Array Rat}
    {columns : List Nat} {c : Nat}
    (hterm : Dictionary.entryOf row c * x (t.dictionary.nameAt c) = 0)
    (hzero : c ∉ columns → x (t.dictionary.nameAt c) = 0)
    (hnot : c ∉ columns.filter fun c =>
      decide (Scalar.abs (Dictionary.entryOf row c) < t.precision)) :
    x (t.dictionary.nameAt c) = 0 := by
  by_cases hmem : c ∈ columns
  · apply (mul_eq_zero.1 hterm).resolve_left
    intro hentry
    apply hnot
    rw [List.mem_filter, scalar_abs_eq, hentry, abs_zero, decide_eq_true_iff]
    exact ⟨hmem, hprecision⟩
  · exact hzero hmem

/-- Objectives that promise nothing are at their least, in lexicographic order, among
the points that leave the columns out of reach at zero. -/
theorem not_lt_of_enteringAmong? (hprecision : 0 < t.precision)
    {objectives : List (Array Rat)} (hclear : ∀ row ∈ objectives, ∀ c,
      t.IsClear (Dictionary.entryOf row c))
    {columns : List Nat} (hnone : t.enteringAmong? columns objectives = none)
    (hzero : ∀ c ∈ t.dictionary.columns, c ∉ columns → x (t.dictionary.nameAt c) = 0)
    (hnonneg : ∀ c ∈ t.dictionary.columns, t.isFree (t.dictionary.nonBasicAt c) = false →
      0 ≤ x (t.dictionary.nameAt c)) :
    ¬ objectives.map (fun row => t.dictionary.rowValue row x) <
      objectives.map fun row => Dictionary.entryOf row 0 := by
  induction objectives generalizing columns with
  | nil => exact List.not_lt_nil []
  | cons row lower ih =>
    obtain ⟨hrow, hlower⟩ := List.forall_mem_cons.1 hclear
    rw [enteringAmong?] at hnone
    cases hmost : t.mostPromising? row columns with
    | some found =>
      rw [hmost] at hnone
      exact absurd hnone (by simp)
    | none =>
      rw [hmost] at hnone
      have hterm : ∀ c ∈ Finset.Ico 1 t.dictionary.width,
          Dictionary.entryOf row c * x (t.dictionary.nameAt c) ≤ 0 := by
        intro c hc
        have hc' := Dictionary.mem_columns_iff_mem_Ico.2 hc
        exact mul_nonpos_of_mostPromising? hrow hmost (hzero c hc') (hnonneg c hc')
      have hsum := Finset.sum_nonpos hterm
      rw [List.map_cons, List.map_cons, List.cons_lt_cons_iff, Dictionary.rowValue]
      rintro (hless | ⟨hequal, hrest⟩)
      · linarith
      · -- Where this objective is attained, only the columns it is indifferent to are left.
        have hterms := (Finset.sum_eq_zero_iff_of_nonpos hterm).1 (by linarith)
        refine ih hlower hnone ?_ hrest
        intro c hc
        exact eq_zero_of_not_tied hprecision
          (hterms c (Dictionary.mem_columns_iff_mem_Ico.1 hc)) (hzero c hc)

theorem objectiveVector_valueOf (h : t.dictionary.IsNamed) :
    t.dictionary.objectiveVector t.dictionary.valueOf =
      t.dictionary.objectives.map fun row => Dictionary.entryOf row 0 := by
  apply List.map_congr_left
  intro row _
  exact Dictionary.rowValue_valueOf h row

theorem not_objectiveVector_lt_of_optimal (h : t.dictionary.IsNamed)
    (hseparated : t.IsSeparated) (hstep : t.phaseTwoStep = .optimal) (hadmits : t.Admits x) :
    ¬ t.dictionary.objectiveVector x < t.dictionary.objectiveVector t.dictionary.valueOf := by
  rw [objectiveVector_valueOf h]
  exact not_lt_of_enteringAmong? hseparated.precision_pos
    (fun row hrow => hseparated.clear_of_mem_objectives hrow)
    (phaseTwoStep_eq_optimal_iff.1 hstep) (fun c hc hnot => absurd hc hnot)
    ((admits_iff h).1 hadmits).2

/-! ## Unbounded tableaus -/

theorem exists_promises_of_enteringAmong? {columns : List Nat} {objectives : List (Array Rat)}
    (hentering : t.enteringAmong? columns objectives = some entering) :
    ∃ row ∈ objectives, t.Promises row entering := by
  induction objectives generalizing columns with
  | nil => exact absurd hentering (by simp [enteringAmong?])
  | cons row lower ih =>
    rw [enteringAmong?] at hentering
    cases hmost : t.mostPromising? row columns with
    | some found =>
      rw [hmost] at hentering
      obtain rfl := Option.some.inj hentering
      exact ⟨row, List.mem_cons_self, of_mostPromising? hmost⟩
    | none =>
      rw [hmost] at hentering
      obtain ⟨promising, hmem, hpromises⟩ := ih hentering
      exact ⟨promising, List.mem_cons_of_mem row hmem, hpromises⟩

/-- A move of the entering variable improves the first objective that is not
indifferent to it. -/
theorem lt_of_enteringAmong? (hprecision : 0 < t.precision)
    {objectives : List (Array Rat)} (hclear : ∀ row ∈ objectives, ∀ c,
      t.IsClear (Dictionary.entryOf row c))
    {columns : List Nat} (hentering : t.enteringAmong? columns objectives = some entering)
    {distance : Rat} (hdistance : 0 < distance) :
    (objectives.map fun row => Dictionary.entryOf row 0 -
      Dictionary.entryOf row entering.column * (entering.sign * distance)) <
        objectives.map fun row => Dictionary.entryOf row 0 := by
  induction objectives generalizing columns with
  | nil => exact absurd hentering (by simp [enteringAmong?])
  | cons row lower ih =>
    obtain ⟨hrow, hlower⟩ := List.forall_mem_cons.1 hclear
    rw [enteringAmong?] at hentering
    rw [List.map_cons, List.map_cons, List.cons_lt_cons_iff]
    cases hmost : t.mostPromising? row columns with
    | some found =>
      rw [hmost] at hentering
      obtain rfl := Option.some.inj hentering
      left
      have hgain : 0 < found.sign * Dictionary.entryOf row found.column * distance :=
        mul_pos (lt_trans hprecision (of_mostPromising? hmost).improves) hdistance
      linarith
    | none =>
      rw [hmost] at hentering
      right
      -- The later objectives choose among the columns to which this one is indifferent.
      have htied := (List.mem_filter.1 (mem_of_enteringAmong? hentering)).2
      have hzero : Dictionary.entryOf row entering.column = 0 := by
        apply (hrow entering.column).eq_zero_of_le
        rw [scalar_abs_eq] at htied
        exact le_of_lt (of_decide_eq_true htied)
      constructor
      · rw [hzero, zero_mul, sub_zero]
      · exact ih hlower hentering

theorem objectiveVector_moved_lt (h : t.dictionary.IsNamed) (hseparated : t.IsSeparated)
    (hentering : t.entering? = some entering) {distance : Rat} (hdistance : 0 < distance) :
    t.dictionary.objectiveVector (t.dictionary.moved entering.column (entering.sign * distance)) <
      t.dictionary.objectiveVector t.dictionary.valueOf := by
  have hmoved : t.dictionary.objectiveVector
      (t.dictionary.moved entering.column (entering.sign * distance)) =
        t.dictionary.objectives.map fun row => Dictionary.entryOf row 0 -
          Dictionary.entryOf row entering.column * (entering.sign * distance) := by
    apply List.map_congr_left
    intro row _
    exact Dictionary.rowValue_moved h (mem_columns_of_entering? hentering) row _
  rw [hmoved, objectiveVector_valueOf h]
  exact lt_of_enteringAmong? hseparated.precision_pos
    (fun row hrow => hseparated.clear_of_mem_objectives hrow) hentering hdistance

/-- A restricted entering variable only grows. -/
theorem sign_eq_one (hentering : t.entering? = some entering)
    (hrestricted : t.isFree (t.dictionary.nonBasicAt entering.column) = false) :
    entering.sign = 1 := by
  obtain ⟨row, -, hpromises⟩ := exists_promises_of_enteringAmong? hentering
  have hdecreases : entering.decreases ≠ true := by
    intro hdecreases
    rw [hpromises.free_of_decreases hdecreases] at hrestricted
    exact absurd hrestricted (by simp)
  exact if_neg hdecreases

/-- The ratio test does not miss a row that falls with the entering variable. -/
theorem blocks_of_falls (hseparated : t.IsSeparated) (hrow : t.IsRestrictedRow r)
    (hfalls : 0 < entering.sign * t.dictionary.entry r entering.column) :
    t.Blocks entering r := by
  refine ⟨hrow, ?_⟩
  rcases hseparated.entry_clear r entering.column with hzero | hlarge
  · rw [hzero, mul_zero] at hfalls
    exact absurd hfalls (lt_irrefl 0)
  · exact le_of_lt hlarge.1

theorem precision_lt_ratio (hseparated : t.IsSeparated) (hfeasible : t.HasFeasibleBasis)
    (hcolumn : entering.column ∈ t.dictionary.columns) (hrow : t.IsRestrictedRow r)
    (hfalls : 0 < entering.sign * t.dictionary.entry r entering.column)
    (hbound : ¬ t.IsAtBound entering r) : t.precision < t.ratio entering r := by
  have hpositive : 0 < t.dictionary.entry r 0 := by
    apply lt_of_le_of_ne (hfeasible r hrow)
    intro hzero
    apply hbound
    rw [IsAtBound, ← hzero, abs_zero]
    exact ⟨hfalls, hseparated.precision_pos⟩
  have hentry : t.dictionary.entry r entering.column ≠ 0 := by
    intro hzero
    rw [hzero, mul_zero] at hfalls
    exact lt_irrefl 0 hfalls
  have hmagnitude : |t.dictionary.entry r entering.column| =
      entering.sign * t.dictionary.entry r entering.column := by
    rcases entering.sign_cases with hsign | hsign
    · rw [hsign, one_mul] at hfalls ⊢
      exact abs_of_pos hfalls
    · rw [hsign, neg_one_mul] at hfalls ⊢
      exact abs_of_neg (neg_pos.1 hfalls)
  calc t.precision
      < |t.dictionary.entry r 0 / t.dictionary.entry r entering.column| :=
        hseparated.ratio_clear r hrow.1 _ hcolumn (ne_of_gt hpositive) hentry
    _ = t.dictionary.entry r 0 / |t.dictionary.entry r entering.column| := by
        rw [abs_div, abs_of_pos hpositive]
    _ = t.ratio entering r := by rw [hmagnitude, ratio_eq]

theorem admits_moved (h : t.dictionary.IsNamed) (hseparated : t.IsSeparated)
    (hfeasible : t.HasFeasibleBasis) (hentering : t.entering? = some entering)
    (hleaving : t.leavingRow? entering = none) {distance : Rat} (hdistance : 0 ≤ distance) :
    t.Admits (t.dictionary.moved entering.column (entering.sign * distance)) := by
  have hcolumn := mem_columns_of_entering? hentering
  have hblocks := leavingRow?_eq_none_iff.1 hleaving
  rw [admits_iff h]
  constructor
  · intro r index hr hindex
    have hvalue : t.dictionary.moved entering.column (entering.sign * distance) index =
        t.dictionary.entry r 0 -
          t.dictionary.entry r entering.column * (entering.sign * distance) := by
      rw [Dictionary.moved, h.row?_eq_some hr.1 hindex]
    have hrises : entering.sign * t.dictionary.entry r entering.column ≤ 0 := by
      by_contra hfalls
      obtain ⟨hbound, hratio⟩ := hblocks r (blocks_of_falls hseparated hr (not_le.1 hfalls))
      exact absurd hratio (not_le.2
        (precision_lt_ratio hseparated hfeasible hcolumn hr (not_le.1 hfalls) hbound))
    calc 0
        ≤ t.dictionary.entry r 0 := hfeasible r hr
      _ ≤ t.dictionary.entry r 0 -
            entering.sign * t.dictionary.entry r entering.column * distance :=
          le_sub_self_iff _ |>.2 (mul_nonpos_of_nonpos_of_nonneg hrises hdistance)
      _ = t.dictionary.moved entering.column (entering.sign * distance) index := by
          rw [hvalue]
          ring
  · intro c hc hrestricted
    obtain ⟨index, hindex⟩ := h.exists_nonBasicAt hc
    rw [Dictionary.IsNamed.nameAt_eq hindex, Dictionary.moved_nonBasic h hc hindex]
    split
    · next heq =>
      rw [heq] at hrestricted
      rw [sign_eq_one hentering hrestricted, one_mul]
      exact hdistance
    · exact le_refl 0

end Tableau

end MixedInteger
