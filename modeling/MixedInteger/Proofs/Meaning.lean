import Mathlib.Algebra.BigOperators.Intervals
import Mathlib.Algebra.BigOperators.Ring.Finset
import Mathlib.Algebra.Field.Rat
import Mathlib.Algebra.Order.Ring.Rat
import Mathlib.Tactic.FieldSimp
import Mathlib.Tactic.Linarith
import Mathlib.Tactic.Ring
import MixedInteger.Proofs.ObjectiveRows
import MixedInteger.Proofs.PivotRun
import MixedInteger.Proofs.TableauEdits

/-!
# What a dictionary means

Over the rationals a dictionary is a system of linear equations: an assignment of
values to variables satisfies it if every basic variable has the value of its row.
The objective of a priority is a linear form in the same way.  A pivot changes neither,
as long as it does not mistake a small entry for zero.
-/

namespace MixedInteger

/-! ## Scalars over the rationals -/

theorem scalar_abs_eq (value : Rat) : Scalar.abs value = |value| := by
  change Rat.abs value = |value|
  by_cases hvalue : 0 ≤ value
  · rw [Rat.abs_of_nonneg hvalue, abs_of_nonneg hvalue]
  · rw [Rat.abs_of_nonpos (le_of_not_ge hvalue), abs_of_nonpos (le_of_not_ge hvalue)]

theorem pivotZero_nonneg : (0 : Rat) ≤ Scalar.pivotZero := by decide +kernel

theorem not_pivotZero_lt_abs_zero : ¬ Scalar.pivotZero < Scalar.abs (0 : Rat) := by
  rw [scalar_abs_eq, abs_zero]
  exact not_lt_of_ge pivotZero_nonneg

namespace Dictionary

/-! ## Rows as linear forms -/

def nameAt {α : Type} (d : Dictionary α) (c : Nat) : Nat :=
  (d.nonBasicAt c).getD 0

/-- The value of a row of numbers when the non-basic variables have given values. -/
def rowValue (d : Dictionary Rat) (row : Array Rat) (x : Nat → Rat) : Rat :=
  entryOf row 0 - ∑ c ∈ Finset.Ico 1 d.width, entryOf row c * x (d.nameAt c)

/-- Every basic variable has the value of its row. -/
def Satisfies (d : Dictionary Rat) (x : Nat → Rat) : Prop :=
  ∀ r ∈ d.rows, ∀ index, d.basicAt r = some index → x index = d.rowValue (d.row r) x

def objectiveAt (d : Dictionary Rat) (priority : Priority) (x : Nat → Rat) : Rat :=
  d.rowValue (d.objectiveRow priority) x

theorem mem_columns_iff_mem_Ico {d : Dictionary Rat} {c : Nat} :
    c ∈ d.columns ↔ c ∈ Finset.Ico 1 d.width := by
  rw [mem_columns, Finset.mem_Ico]
  exact Iff.rfl

theorem rowValue_congr {d d' : Dictionary Rat} {row row' : Array Rat} {x x' : Nat → Rat}
    (hwidth : d'.width = d.width) (hzero : entryOf row' 0 = entryOf row 0)
    (hterms : ∀ c ∈ d.columns, entryOf row' c * x' (d'.nameAt c) = entryOf row c * x (d.nameAt c)) :
    d'.rowValue row' x' = d.rowValue row x := by
  rw [rowValue, rowValue, hwidth, hzero]
  congr 1
  apply Finset.sum_congr rfl
  intro c hc
  exact hterms c (mem_columns_iff_mem_Ico.2 hc)

/-- Values of variables outside the columns do not matter. -/
theorem rowValue_update {d : Dictionary Rat} {index : Nat}
    (hindex : ∀ c ∈ d.columns, d.nameAt c ≠ index)
    (row : Array Rat) (x : Nat → Rat) (value : Rat) :
    d.rowValue row (Function.update x index value) = d.rowValue row x := by
  apply rowValue_congr rfl rfl
  intro c hc
  rw [Function.update_of_ne (hindex c hc)]

/-- A row without the term of one column. -/
def restValue (d : Dictionary Rat) (column : Nat) (row : Array Rat) (x : Nat → Rat) : Rat :=
  ∑ c ∈ (Finset.Ico 1 d.width).erase column, entryOf row c * x (d.nameAt c)

theorem rowValue_eq_rest {d : Dictionary Rat} {c : Nat} (hc : c ∈ d.columns) (row : Array Rat)
    (x : Nat → Rat) :
    d.rowValue row x =
      entryOf row 0 - (entryOf row c * x (d.nameAt c) + d.restValue c row x) := by
  rw [rowValue, restValue, Finset.add_sum_erase _ (fun e => entryOf row e * x (d.nameAt e))
    (mem_columns_iff_mem_Ico.1 hc)]

theorem IsNamed.nameAt_eq {d : Dictionary Rat} {c index : Nat}
    (hindex : d.nonBasicAt c = some index) : d.nameAt c = index := by
  rw [nameAt, hindex]
  rfl

theorem IsNamed.nameAt_ne_of_ne {d : Dictionary Rat} (h : d.IsNamed) {c e : Nat}
    (hc : c ∈ d.columns) (he : e ∈ d.columns) (hne : e ≠ c) : d.nameAt e ≠ d.nameAt c := by
  obtain ⟨left, hleft⟩ := h.exists_nonBasicAt hc
  obtain ⟨right, hright⟩ := h.exists_nonBasicAt he
  rw [IsNamed.nameAt_eq hleft, IsNamed.nameAt_eq hright]
  rintro rfl
  exact hne (h.nonBasicAt_inj he hc hright hleft)

theorem IsNamed.nameAt_ne_basic {d : Dictionary Rat} (h : d.IsNamed) {r c index : Nat}
    (hr : r ∈ d.rows) (hindex : d.basicAt r = some index) (hc : c ∈ d.columns) :
    d.nameAt c ≠ index := by
  obtain ⟨name, hname⟩ := h.exists_nonBasicAt hc
  rw [IsNamed.nameAt_eq hname]
  exact (h.basicAt_ne_nonBasicAt hr hc hindex hname).symm

/-- The second dictionary says of an assignment what the first says of the changed
one. -/
structure ReadsThrough (change : (Nat → Rat) → Nat → Rat) (d d' : Dictionary Rat) : Prop where
  satisfies_iff : ∀ x, d'.Satisfies x ↔ d.Satisfies (change x)
  objective_eq : ∀ x, d.Satisfies (change x) → ∀ priority,
    d'.objectiveAt priority x = d.objectiveAt priority (change x)

/-- Two dictionaries that state the same equations and, where these hold, the same
objectives. -/
def SameMeaning (d d' : Dictionary Rat) : Prop :=
  ReadsThrough (fun x => x) d d'

/-! ## Pivots -/

/-- A pivot that drops no entry other than zero. -/
structure PivotExact (d : Dictionary Rat) (r c : Nat) : Prop where
  row_exact : ∀ e, d.entry r e = 0 ∨ Scalar.pivotZero < Scalar.abs (d.entry r e)
  column_exact : ∀ i, d.entry i c = 0 ∨ Scalar.pivotZero < Scalar.abs (d.entry i c)
  secondary_exact : ∀ objective ∈ d.secondary, entryOf objective.reducedCosts c = 0 ∨
    Scalar.pivotZero < Scalar.abs (entryOf objective.reducedCosts c)

/-- Entries outside of the rows are zero anyway. -/
theorem pivotExact_iff {d : Dictionary Rat} {r c : Nat} :
    d.PivotExact r c ↔
      (∀ e < (d.row r).size,
        d.entry r e = 0 ∨ Scalar.pivotZero < Scalar.abs (d.entry r e)) ∧
      (∀ i < d.matrix.size,
        d.entry i c = 0 ∨ Scalar.pivotZero < Scalar.abs (d.entry i c)) ∧
      ∀ objective ∈ d.secondary, entryOf objective.reducedCosts c = 0 ∨
        Scalar.pivotZero < Scalar.abs (entryOf objective.reducedCosts c) := by
  constructor
  · intro h
    exact ⟨fun e _ => h.row_exact e, fun i _ => h.column_exact i, h.secondary_exact⟩
  · intro h
    refine ⟨?_, ?_, h.2.2⟩
    · intro e
      by_cases he : e < (d.row r).size
      · exact h.1 e he
      · exact .inl (entryOf_of_size_le (Nat.le_of_not_lt he))
    · intro i
      by_cases hi : i < d.matrix.size
      · exact h.2.1 i hi
      · rw [entry, row_of_matrix_size_le (Nat.le_of_not_lt hi)]
        exact .inl (entryOf_of_size_le (Nat.zero_le c))

instance (d : Dictionary Rat) (r c : Nat) : Decidable (d.PivotExact r c) :=
  decidable_of_iff _ pivotExact_iff.symm

def PivotKeeps (d : Dictionary Rat) (r c : Nat) : Prop :=
  d.PivotExact r c ∧ d.entry r c ≠ 0

theorem entryOf_normalise {row : Array Rat}
    (hrow : ∀ e, entryOf row e = 0 ∨ Scalar.pivotZero < Scalar.abs (entryOf row e))
    {column : Nat} (hcolumn : column < row.size) (quotient : Rat) {e : Nat} (he : e < row.size) :
    entryOf (normalise (scale row quotient) column quotient) e =
      if e = column then 1 / quotient else entryOf row e / quotient := by
  have hsize : column < ((scale row quotient).map fun value => value.getD 0).size := by
    simpa using hcolumn
  rw [normalise, entryOf_setIfInBounds hsize]
  congr 1
  have hscale := getElem?_scale_join row quotient he
  rw [entryOf_eq, Array.getElem?_map]
  have hget : (scale row quotient)[e]? = some (scale row quotient)[e]?.join := by
    rw [Array.getElem?_eq_getElem (by simpa using he)]
    rfl
  rw [hget, hscale]
  rcases hrow e with hzero | hlarge
  · rw [hzero, if_neg not_pivotZero_lt_abs_zero, zero_div]
    rfl
  · rw [if_pos hlarge]
    rfl

theorem entryOf_eliminate {row target : Array Rat} (hsize : target.size = row.size)
    (hrow : ∀ e, entryOf row e = 0 ∨ Scalar.pivotZero < Scalar.abs (entryOf row e))
    {column : Nat} (hcolumn : column < row.size)
    (htarget : entryOf target column = 0 ∨
      Scalar.pivotZero < Scalar.abs (entryOf target column))
    (quotient : Rat) {e : Nat} (he : e < row.size) :
    entryOf (eliminate (scale row quotient) column quotient target) e =
      if e = column then -entryOf target column / quotient
      else entryOf target e - entryOf target column * (entryOf row e / quotient) := by
  have hbound : column < target.size := by
    rw [hsize]
    exact hcolumn
  unfold eliminate
  simp only
  rcases htarget with hzero | hlarge
  · rw [hzero, if_pos (le_of_not_gt not_pivotZero_lt_abs_zero), entryOf_setIfInBounds hbound]
    simp
  · rw [if_neg (not_le_of_gt hlarge), entryOf_setIfInBounds (by simpa using hbound)]
    congr 1
    rw [entryOf_eq, Array.getElem?_mapIdx, Array.getElem?_eq_getElem (by omega : e < target.size)]
    have hentry : entryOf target e = target[e] := by
      rw [entryOf_eq, Array.getElem?_eq_getElem (by omega : e < target.size)]
      rfl
    rw [Option.map_some, Option.getD_some, getElem?_scale_join row quotient he, hentry]
    rcases hrow e with hzero | hlarge'
    · rw [hzero, if_neg not_pivotZero_lt_abs_zero, zero_div, mul_zero, sub_zero]
    · rw [if_pos hlarge']

section Pivot

variable {d : Dictionary Rat} {r c leaving entering : Nat} {x : Nat → Rat}

theorem nameAt_pivot (hc : c ∈ d.columns) (hleaving : d.basicAt r = some leaving)
    (hentering : d.nonBasicAt c = some entering) (e : Nat) :
    (d.pivot r c).nameAt e = if e = c then leaving else d.nameAt e := by
  have hname : (d.pivot r c).nonBasicAt e = if e = c then some leaving else d.nonBasicAt e :=
    nonBasicAt_exchange (mem_columns.1 hc).2 hleaving hentering e
  rw [nameAt, hname]
  split <;> rfl

/-- The terms of a changed row outside the column of the pivot. -/
theorem restValue_pivot (hc : c ∈ d.columns) (hleaving : d.basicAt r = some leaving)
    (hentering : d.nonBasicAt c = some entering) {row row' source : Array Rat} {factor : Rat}
    (hrow' : ∀ e ∈ d.columns, e ≠ c → entryOf row' e = entryOf row e - factor * entryOf source e) :
    (d.pivot r c).restValue c row' x =
      d.restValue c row x - factor * d.restValue c source x := by
  rw [restValue, restValue, restValue, width_pivot, Finset.mul_sum, ← Finset.sum_sub_distrib]
  apply Finset.sum_congr rfl
  intro e he
  obtain ⟨hne, hmem⟩ := Finset.mem_erase.1 he
  rw [hrow' e (mem_columns_iff_mem_Ico.2 hmem) hne, nameAt_pivot hc hleaving hentering,
    if_neg hne]
  ring

/-- A row keeps its value when the pivot column is eliminated from it. -/
theorem rowValue_eliminate (h : d.HasBasis) (hr : r ∈ d.rows) (hc : c ∈ d.columns)
    (hleaving : d.basicAt r = some leaving) (hkeeps : d.PivotKeeps r c) {row : Array Rat}
    (hsize : row.size = d.width)
    (hexact : entryOf row c = 0 ∨ Scalar.pivotZero < Scalar.abs (entryOf row c))
    (hx : x leaving = d.rowValue (d.row r) x) :
    (d.pivot r c).rowValue
        (eliminate (scale (d.row r) (d.entry r c)) c (d.entry r c) row) x =
      d.rowValue row x := by
  obtain ⟨entering, hentering⟩ := h.exists_nonBasicAt hc
  obtain ⟨hcpos, hcwidth⟩ := mem_columns.1 hc
  have hrowSize : (d.row r).size = d.width := h.row_size r (mem_rows.1 hr).2
  have hentry {e : Nat} (he : e < d.width) :=
    entryOf_eliminate (hsize.trans hrowSize.symm) hkeeps.1.row_exact
      (by rw [hrowSize]; exact hcwidth) hexact (d.entry r c) (by rw [hrowSize]; exact he)
  have hc' : c ∈ (d.pivot r c).columns := by
    rw [mem_columns, width_pivot]
    exact ⟨hcpos, hcwidth⟩
  have hrest : (d.pivot r c).restValue c
      (eliminate (scale (d.row r) (d.entry r c)) c (d.entry r c) row) x =
        d.restValue c row x -
          entryOf row c / d.entry r c * d.restValue c (d.row r) x := by
    apply restValue_pivot hc hleaving hentering
    intro e he hne
    rw [hentry (mem_columns.1 he).2, if_neg hne]
    ring
  have hne : d.entry r c ≠ 0 := hkeeps.2
  rw [rowValue_eq_rest hc, IsNamed.nameAt_eq hentering] at hx ⊢
  rw [rowValue_eq_rest hc', hrest, nameAt_pivot hc hleaving hentering, if_pos rfl,
    hentry hcwidth, if_pos rfl, hentry (Nat.lt_trans hcpos hcwidth), if_neg (by omega), hx]
  change d.entry r c ≠ 0 at hne
  have hpivot : entryOf (d.row r) c = d.entry r c := rfl
  rw [hpivot]
  field_simp
  ring

/-- The pivot row states the same equation, solved for the other variable. -/
theorem rowValue_normalise (h : d.HasBasis) (hr : r ∈ d.rows) (hc : c ∈ d.columns)
    (hleaving : d.basicAt r = some leaving) (hentering : d.nonBasicAt c = some entering)
    (hkeeps : d.PivotKeeps r c) :
    x entering = (d.pivot r c).rowValue
        (normalise (scale (d.row r) (d.entry r c)) c (d.entry r c)) x ↔
      x leaving = d.rowValue (d.row r) x := by
  obtain ⟨hcpos, hcwidth⟩ := mem_columns.1 hc
  have hrowSize : (d.row r).size = d.width := h.row_size r (mem_rows.1 hr).2
  have hentry {e : Nat} (he : e < d.width) :=
    entryOf_normalise hkeeps.1.row_exact (by rw [hrowSize]; exact hcwidth) (d.entry r c)
      (by rw [hrowSize]; exact he)
  have hc' : c ∈ (d.pivot r c).columns := by
    rw [mem_columns, width_pivot]
    exact ⟨hcpos, hcwidth⟩
  have hrest : (d.pivot r c).restValue c
      (normalise (scale (d.row r) (d.entry r c)) c (d.entry r c)) x =
        0 - -1 / d.entry r c * d.restValue c (d.row r) x := by
    have hempty (e : Nat) : entryOf (#[] : Array Rat) e = 0 := entryOf_of_size_le (Nat.zero_le e)
    have hzero : d.restValue c #[] x = 0 := by
      apply Finset.sum_eq_zero
      intro e _
      rw [hempty, zero_mul]
    rw [← hzero]
    apply restValue_pivot hc hleaving hentering
    intro e he hne
    rw [hentry (mem_columns.1 he).2, if_neg hne, hempty]
    ring
  have hne : d.entry r c ≠ 0 := hkeeps.2
  have hpivot : entryOf (d.row r) c = d.entry r c := rfl
  rw [rowValue_eq_rest hc', hrest, nameAt_pivot hc hleaving hentering, if_pos rfl,
    hentry hcwidth, if_pos rfl, hentry (Nat.lt_trans hcpos hcwidth), if_neg (by omega),
    rowValue_eq_rest hc, IsNamed.nameAt_eq hentering, hpivot]
  constructor
  · intro hx
    rw [hx]
    field_simp
    ring
  · intro hx
    rw [hx]
    field_simp
    ring

theorem basicAt_pivot (hr : r ∈ d.rows) (hleaving : d.basicAt r = some leaving)
    (hentering : d.nonBasicAt c = some entering) (i : Nat) :
    (d.pivot r c).basicAt i = if i = r then some entering else d.basicAt i :=
  basicAt_exchange (mem_rows.1 hr).2 hleaving hentering i

theorem mem_rows_pivot {i : Nat} : i ∈ (d.pivot r c).rows ↔ i ∈ d.rows := by
  rw [mem_rows, mem_rows, height_pivot]

theorem satisfies_pivot (h : d.HasBasis) (hr : r ∈ d.rows) (hc : c ∈ d.columns)
    (hkeeps : d.PivotKeeps r c) : (d.pivot r c).Satisfies x ↔ d.Satisfies x := by
  obtain ⟨leaving, hleaving⟩ := h.exists_basicAt hr
  obtain ⟨entering, hentering⟩ := h.exists_nonBasicAt hc
  have hmatrix {i : Nat} (hi : i ∈ d.rows) : i < d.matrix.size := by
    rw [h.matrix_size]
    exact (mem_rows.1 hi).2
  -- The equation of the pivot row is the same before and after, and it makes the others so.
  have hsource : x entering = (d.pivot r c).rowValue ((d.pivot r c).row r) x ↔
      x leaving = d.rowValue (d.row r) x := by
    rw [row_pivot d r c (hmatrix hr), if_pos rfl]
    exact rowValue_normalise h hr hc hleaving hentering hkeeps
  have hother {i : Nat} (hi : i ∈ d.rows) (hne : i ≠ r)
      (hx : x leaving = d.rowValue (d.row r) x) :
      (d.pivot r c).rowValue ((d.pivot r c).row i) x = d.rowValue (d.row i) x := by
    rw [row_pivot d r c (hmatrix hi), if_neg hne]
    exact rowValue_eliminate h hr hc hleaving hkeeps (h.row_size i (mem_rows.1 hi).2)
      (hkeeps.1.column_exact i) hx
  constructor
  · intro hx i hi index hindex
    have hpivotRow : x leaving = d.rowValue (d.row r) x := by
      apply hsource.1
      apply hx r (mem_rows_pivot.2 hr)
      rw [basicAt_pivot hr hleaving hentering, if_pos rfl]
    by_cases hne : i = r
    · subst hne
      rw [hleaving, Option.some.injEq] at hindex
      rw [← hindex]
      exact hpivotRow
    · rw [← hother hi hne hpivotRow]
      apply hx i (mem_rows_pivot.2 hi)
      rw [basicAt_pivot hr hleaving hentering, if_neg hne]
      exact hindex
  · intro hx i hi index hindex
    have hpivotRow : x leaving = d.rowValue (d.row r) x := hx r hr leaving hleaving
    rw [basicAt_pivot hr hleaving hentering] at hindex
    by_cases hne : i = r
    · subst hne
      rw [if_pos rfl, Option.some.injEq] at hindex
      rw [← hindex]
      exact hsource.2 hpivotRow
    · rw [if_neg hne] at hindex
      rw [hother (mem_rows_pivot.1 hi) hne hpivotRow]
      exact hx i (mem_rows_pivot.1 hi) index hindex

theorem entryOf_eliminate_zeros (scaled : Array (Option Rat)) (column : Nat) (quotient : Rat)
    (width e : Nat) :
    entryOf (eliminate scaled column quotient (Array.replicate width 0)) e = 0 := by
  unfold eliminate
  simp only
  rw [entryOf_replicate_zero, if_pos (le_of_not_gt not_pivotZero_lt_abs_zero)]
  by_cases hcolumn : column < (Array.replicate width (0 : Rat)).size
  · rw [entryOf_setIfInBounds hcolumn, entryOf_replicate_zero, ite_self]
  · rw [Array.setIfInBounds_eq_of_size_le (Nat.le_of_not_lt hcolumn), entryOf_replicate_zero]

theorem PivotExact.objective_exact (h : d.PivotExact r c) (priority : Priority) :
    entryOf (d.objectiveRow priority) c = 0 ∨
      Scalar.pivotZero < Scalar.abs (entryOf (d.objectiveRow priority) c) := by
  unfold objectiveRow
  split
  · exact h.column_exact 0
  · cases hrow : secondaryRow? d.secondary priority with
    | none => exact .inl (entryOf_replicate_zero _ _)
    | some row =>
      obtain ⟨objective, hobjective, -, rfl⟩ := exists_of_secondaryRow? hrow
      exact h.secondary_exact objective hobjective

theorem row_zero_pivot (h : d.HasBasis) (hr : r ∈ d.rows) (c : Nat) :
    (d.pivot r c).row 0 =
      eliminate (scale (d.row r) (d.entry r c)) c (d.entry r c) (d.row 0) := by
  obtain ⟨hpos, hlt⟩ := mem_rows.1 hr
  have hzero : 0 < d.matrix.size := by
    rw [h.matrix_size]
    exact Nat.lt_trans hpos hlt
  rw [row_pivot d r c hzero, if_neg (Nat.ne_of_lt hpos)]

theorem objectiveAt_pivot (h : d.HasBasis) (hr : r ∈ d.rows) (hc : c ∈ d.columns)
    (hkeeps : d.PivotKeeps r c) (hx : d.Satisfies x) (priority : Priority) :
    (d.pivot r c).objectiveAt priority x = d.objectiveAt priority x := by
  obtain ⟨leaving, hleaving⟩ := h.exists_basicAt hr
  obtain ⟨hpos, hlt⟩ := mem_rows.1 hr
  have hentry := entryOf_objectiveRow_of_map _ (row_zero_pivot h hr c) rfl
    (entryOf_eliminate_zeros _ _ _ _) priority
  calc (d.pivot r c).objectiveAt priority x
      = (d.pivot r c).rowValue (eliminate (scale (d.row r) (d.entry r c)) c (d.entry r c)
          (d.objectiveRow priority)) x := by
        apply rowValue_congr rfl (hentry 0)
        intro e _
        rw [hentry e]
    _ = d.objectiveAt priority x := by
        apply rowValue_eliminate h hr hc hleaving hkeeps
        · exact size_objectiveRow h.toIsRectangular (Nat.lt_trans hpos hlt) priority
        · exact hkeeps.1.objective_exact priority
        · exact hx r hr leaving hleaving

theorem PivotsTo.sameMeaning {final : Dictionary Rat} (hrun : PivotsTo PivotKeeps d final)
    (h : d.HasBasis) : SameMeaning d final := by
  induction hrun with
  | refl d => exact ⟨fun _ => Iff.rfl, fun _ _ _ => rfl⟩
  | step hr hc hkeeps _ ih =>
    have hrest := ih (h.pivot hr hc)
    constructor
    · intro x
      exact (hrest.satisfies_iff x).trans (satisfies_pivot h hr hc hkeeps)
    · intro x hx priority
      rw [hrest.objective_eq x ((satisfies_pivot h hr hc hkeeps).2 hx),
        objectiveAt_pivot h hr hc hkeeps hx]

end Pivot

end Dictionary

end MixedInteger
