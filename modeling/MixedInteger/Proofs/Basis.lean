import MixedInteger.Tableau.Dictionary

/-!
# The basis of a dictionary

A dictionary keeps its basis in four tables: the variable of each row and of each
column, and the row and the column of each variable.  `HasBasis` says that the
tables agree as far as rows and columns are concerned and that every row of
numbers has the full width; it is what `Tableau.validate` checks, together with
the width of the secondary objectives.  `IsConsistent` adds the converse, that
every recorded place is right, and the order of the secondary objectives; it holds
along all runs.

All statements hold for every kind of scalar: nothing here depends on the numbers
in the matrix.
-/

namespace MixedInteger.Dictionary

variable {α : Type}

theorem mem_rows {d : Dictionary α} {r : Nat} : r ∈ d.rows ↔ 0 < r ∧ r < d.height := by
  simp only [rows, List.mem_range'_1]
  omega

theorem mem_columns {d : Dictionary α} {c : Nat} : c ∈ d.columns ↔ 0 < c ∧ c < d.width := by
  simp only [columns, List.mem_range'_1]
  omega

/-- A variable stands in a row or in a column. -/
def Mentions (d : Dictionary α) (index : Nat) : Prop :=
  (d.row? index).isSome ∨ (d.column? index).isSome

/-- The variables of a dictionary: the labels of its rows and columns. -/
def HasVariable (d : Dictionary α) (index : Nat) : Prop :=
  (∃ r ∈ d.rows, d.basicAt r = some index) ∨ ∃ c ∈ d.columns, d.nonBasicAt c = some index

/-- Every row of numbers has the full width. -/
structure IsRectangular (d : Dictionary α) : Prop where
  matrix_size : d.matrix.size = d.height
  row_size : ∀ r < d.height, (d.row r).size = d.width
  objective_size : ∀ objective ∈ d.secondary, objective.reducedCosts.size = d.width

/-- The variables of rows and columns are mapped back to where they stand. -/
structure IsNamed (d : Dictionary α) : Prop where
  basic_placed : ∀ r ∈ d.rows, ∃ index,
    d.basicAt r = some index ∧ d.row? index = some r ∧ d.column? index = none
  nonBasic_placed : ∀ c ∈ d.columns, ∃ index,
    d.nonBasicAt c = some index ∧ d.column? index = some c ∧ d.row? index = none

/-- What a check of the basis establishes. -/
structure HasBasis (d : Dictionary α) : Prop extends IsRectangular d, IsNamed d

/-- A table of names and the places of the names agree: behind position zero every
position has a name, and a name is placed exactly where the table has it. -/
structure Agrees (names : Array (Option Nat)) (places : Places) : Prop where
  size_pos : 0 < names.size
  filled : ∀ p, 0 < p → p < names.size → ∃ index, names[p]?.join = some index
  position_eq_some_iff : ∀ {index p}, places.position index = some p ↔
    0 < p ∧ names[p]?.join = some index

/-- The secondary objectives have positive priorities in ascending order. -/
structure IsRanked (d : Dictionary α) : Prop where
  ascending : d.secondary.Pairwise fun left right => left.priority.level < right.priority.level
  positive : ∀ objective ∈ d.secondary, 0 < objective.priority.level

/-- The basis is a bijection and the secondary objectives are in order. -/
structure IsConsistent (d : Dictionary α) : Prop extends IsRectangular d, IsRanked d where
  rows_agree : Agrees d.basic d.rowOf
  columns_agree : Agrees d.nonBasic d.columnOf
  apart : ∀ index, d.row? index = none ∨ d.column? index = none

/-! ## Names in a consistent dictionary -/

namespace IsNamed

variable {d : Dictionary α}

theorem row?_eq_some (h : d.IsNamed) {r index : Nat} (hr : r ∈ d.rows)
    (hindex : d.basicAt r = some index) : d.row? index = some r := by
  obtain ⟨index', hbasic, hrow, -⟩ := h.basic_placed r hr
  rw [hindex, Option.some.injEq] at hbasic
  rw [hbasic]
  exact hrow

theorem column?_eq_some (h : d.IsNamed) {c index : Nat} (hc : c ∈ d.columns)
    (hindex : d.nonBasicAt c = some index) : d.column? index = some c := by
  obtain ⟨index', hnonBasic, hcolumn, -⟩ := h.nonBasic_placed c hc
  rw [hindex, Option.some.injEq] at hnonBasic
  rw [hnonBasic]
  exact hcolumn

theorem row?_eq_none (h : d.IsNamed) {c index : Nat} (hc : c ∈ d.columns)
    (hindex : d.nonBasicAt c = some index) : d.row? index = none := by
  obtain ⟨index', hnonBasic, -, hrow⟩ := h.nonBasic_placed c hc
  rw [hindex, Option.some.injEq] at hnonBasic
  rw [hnonBasic]
  exact hrow

theorem exists_basicAt (h : d.IsNamed) {r : Nat} (hr : r ∈ d.rows) :
    ∃ index, d.basicAt r = some index := by
  obtain ⟨index, hindex, -⟩ := h.basic_placed r hr
  exact ⟨index, hindex⟩

theorem exists_nonBasicAt (h : d.IsNamed) {c : Nat} (hc : c ∈ d.columns) :
    ∃ index, d.nonBasicAt c = some index := by
  obtain ⟨index, hindex, -⟩ := h.nonBasic_placed c hc
  exact ⟨index, hindex⟩

/-- Different rows have different variables. -/
theorem basicAt_inj (h : d.IsNamed) {r s index : Nat} (hr : r ∈ d.rows) (hs : s ∈ d.rows)
    (hindex : d.basicAt r = some index) (hindex' : d.basicAt s = some index) : r = s := by
  have hrow := h.row?_eq_some hr hindex
  rw [h.row?_eq_some hs hindex', Option.some.injEq] at hrow
  exact hrow.symm

/-- Different columns have different variables. -/
theorem nonBasicAt_inj (h : d.IsNamed) {c e index : Nat} (hc : c ∈ d.columns)
    (he : e ∈ d.columns) (hindex : d.nonBasicAt c = some index)
    (hindex' : d.nonBasicAt e = some index) : c = e := by
  have hcolumn := h.column?_eq_some hc hindex
  rw [h.column?_eq_some he hindex', Option.some.injEq] at hcolumn
  exact hcolumn.symm

/-- No variable is both basic and non-basic. -/
theorem basicAt_ne_nonBasicAt (h : d.IsNamed) {r c left right : Nat} (hr : r ∈ d.rows)
    (hc : c ∈ d.columns) (hleft : d.basicAt r = some left)
    (hright : d.nonBasicAt c = some right) : left ≠ right := by
  rintro rfl
  have hrow := h.row?_eq_some hr hleft
  rw [h.row?_eq_none hc hright] at hrow
  exact absurd hrow (by simp)

end IsNamed

/-! ## Places in a consistent dictionary -/

namespace Agrees

variable {names : Array (Option Nat)} {places : Places}

theorem lt_size {p : Nat} {index : Nat} (hindex : names[p]?.join = some index) :
    p < names.size := by
  by_cases hp : p < names.size
  · exact hp
  · rw [Array.getElem?_eq_none (by omega)] at hindex
    exact absurd hindex (by simp)

theorem name_inj (h : Agrees names places) {p q index : Nat} (hp : 0 < p) (hq : 0 < q)
    (hindex : names[p]?.join = some index) (hindex' : names[q]?.join = some index) : p = q := by
  have hplace := h.position_eq_some_iff.2 ⟨hp, hindex⟩
  rw [h.position_eq_some_iff.2 ⟨hq, hindex'⟩, Option.some.injEq] at hplace
  exact hplace.symm

end Agrees

namespace IsConsistent

variable {d : Dictionary α}

theorem row?_eq_some_iff (h : d.IsConsistent) {index r : Nat} :
    d.row? index = some r ↔ r ∈ d.rows ∧ d.basicAt r = some index := by
  rw [mem_rows]
  constructor
  · intro hrow
    obtain ⟨hpos, hbasic⟩ := h.rows_agree.position_eq_some_iff.1 hrow
    exact ⟨⟨hpos, Agrees.lt_size hbasic⟩, hbasic⟩
  · rintro ⟨hr, hbasic⟩
    exact h.rows_agree.position_eq_some_iff.2 ⟨hr.1, hbasic⟩

theorem column?_eq_some_iff (h : d.IsConsistent) {index c : Nat} :
    d.column? index = some c ↔ c ∈ d.columns ∧ d.nonBasicAt c = some index := by
  rw [mem_columns]
  constructor
  · intro hcolumn
    obtain ⟨hpos, hnonBasic⟩ := h.columns_agree.position_eq_some_iff.1 hcolumn
    exact ⟨⟨hpos, Agrees.lt_size hnonBasic⟩, hnonBasic⟩
  · rintro ⟨hc, hnonBasic⟩
    exact h.columns_agree.position_eq_some_iff.2 ⟨hc.1, hnonBasic⟩

theorem column?_of_row? (h : d.IsConsistent) {index r : Nat} (hrow : d.row? index = some r) :
    d.column? index = none := by
  cases h.apart index with
  | inl hnone => rw [hnone] at hrow; exact absurd hrow (by simp)
  | inr hnone => exact hnone

theorem row?_of_column? (h : d.IsConsistent) {index c : Nat}
    (hcolumn : d.column? index = some c) : d.row? index = none := by
  cases h.apart index with
  | inl hnone => exact hnone
  | inr hnone => rw [hnone] at hcolumn; exact absurd hcolumn (by simp)

/-- In a consistent dictionary a variable is recorded exactly if it labels a row or a column. -/
theorem hasVariable_iff (h : d.IsConsistent) (index : Nat) :
    d.HasVariable index ↔ d.Mentions index := by
  simp only [HasVariable, Mentions, Option.isSome_iff_exists, h.row?_eq_some_iff,
    h.column?_eq_some_iff]

/-- A consistent dictionary passes the check of its basis. -/
theorem isNamed (h : d.IsConsistent) : d.IsNamed := by
  constructor
  · intro r hr
    obtain ⟨index, hindex⟩ := h.rows_agree.filled r (mem_rows.1 hr).1 (mem_rows.1 hr).2
    have hrow := h.row?_eq_some_iff.2 ⟨hr, hindex⟩
    exact ⟨index, hindex, hrow, h.column?_of_row? hrow⟩
  · intro c hc
    obtain ⟨index, hindex⟩ := h.columns_agree.filled c (mem_columns.1 hc).1 (mem_columns.1 hc).2
    have hcolumn := h.column?_eq_some_iff.2 ⟨hc, hindex⟩
    exact ⟨index, hindex, hcolumn, h.row?_of_column? hcolumn⟩

theorem hasBasis (h : d.IsConsistent) : d.HasBasis :=
  ⟨h.toIsRectangular, h.isNamed⟩

end IsConsistent

end MixedInteger.Dictionary
