import MixedInteger.Proofs.Termination

/-!
# A pivot undoes itself

A pivot exchanges two variables and rewrites every row; the second pivot at the same place
exchanges them back.  As long as neither of them takes a small entry for zero, both keep the
solutions and their objectives, and the numbers of a dictionary are determined by these and by
the order of its variables.  So the second pivot brings back the numbers without a look at how
the first one changed them; what is left to compare are the four tables of names and places.
-/

namespace MixedInteger

namespace Places

theorem size_clear (places : Places) (index : Nat) :
    (places.clear index).slots.size = places.slots.size :=
  Array.size_setIfInBounds

theorem size_place (places : Places) (index position : Nat) :
    (places.place index position).slots.size = max places.slots.size (index + 1) := by
  simp only [place, cover, Array.size_setIfInBounds, Array.size_append, Array.size_replicate]
  omega

theorem lt_size_of_position {places : Places} {index position : Nat}
    (h : places.position index = some position) : index < places.slots.size := by
  by_contra hlarge
  rw [Places.position, Array.getElem?_eq_none (Nat.le_of_not_lt hlarge)] at h
  exact absurd h (by simp)

/-- As many slots with the same positions are the same places. -/
theorem eq_of_position {places places' : Places}
    (hsize : places'.slots.size = places.slots.size)
    (hposition : ∀ index, places'.position index = places.position index) :
    places' = places := by
  have hslots : places'.slots = places.slots := by
    apply Array.ext hsize
    intro index hindex' hindex
    have hslot := hposition index
    rwa [Places.position, Places.position, Array.getElem?_eq_getElem hindex',
      Array.getElem?_eq_getElem hindex, Option.join_some, Option.join_some] at hslot
  calc places' = ⟨places'.slots⟩ := rfl
    _ = places := by rw [hslots]

end Places

namespace Dictionary

/-! ## Names and places -/

section Names

variable {α : Type} [Scalar α] {d : Dictionary α} {r c leaving entering : Nat}

/-- The four tables after a pivot. -/
theorem tables_pivot (hleaving : d.basicAt r = some leaving)
    (hentering : d.nonBasicAt c = some entering) :
    (d.pivot r c).basic = d.basic.setIfInBounds r (some entering) ∧
      (d.pivot r c).nonBasic = d.nonBasic.setIfInBounds c (some leaving) ∧
      (d.pivot r c).rowOf = (d.rowOf.place entering r).clear leaving ∧
      (d.pivot r c).columnOf = (d.columnOf.clear entering).place leaving c := by
  simp [pivot, exchange, hleaving, hentering]

/-- A pivot puts the two variables where the next one at the same place looks for them. -/
theorem exchanged_pivot (hr : r ∈ d.rows) (hc : c ∈ d.columns)
    (hleaving : d.basicAt r = some leaving) (hentering : d.nonBasicAt c = some entering) :
    (d.pivot r c).basicAt r = some entering ∧ (d.pivot r c).nonBasicAt c = some leaving :=
  ⟨(basicAt_exchange (mem_rows.1 hr).2 hleaving hentering r).trans (if_pos rfl),
    (nonBasicAt_exchange (mem_columns.1 hc).2 hleaving hentering c).trans (if_pos rfl)⟩

omit [Scalar α] in
/-- Writing back the name that a position had restores a table. -/
theorem setIfInBounds_setIfInBounds_of_join {names : Array (Option Nat)} {position old : Nat}
    (new : Option Nat) (hold : names[position]?.join = some old) :
    (names.setIfInBounds position new).setIfInBounds position (some old) = names := by
  have hslot : names[position]? = some (some old) := Option.join_eq_some_iff.1 hold
  apply Array.ext_getElem?
  intro i
  rw [Array.setIfInBounds_setIfInBounds, Array.getElem?_setIfInBounds]
  by_cases hi : position = i
  · rw [← hi, if_pos rfl, hslot, if_pos (Array.getElem?_eq_some_iff.1 hslot).1]
  · rw [if_neg hi]

/-- The second pivot gives rows and columns their old names. -/
theorem names_pivot_pivot (h : d.IsNamed) (hr : r ∈ d.rows) (hc : c ∈ d.columns) :
    ((d.pivot r c).pivot r c).basic = d.basic ∧
      ((d.pivot r c).pivot r c).nonBasic = d.nonBasic := by
  obtain ⟨leaving, hleaving⟩ := h.exists_basicAt hr
  obtain ⟨entering, hentering⟩ := h.exists_nonBasicAt hc
  obtain ⟨hbasic, hnonBasic, -⟩ := tables_pivot hleaving hentering
  obtain ⟨hleaving', hentering'⟩ := exchanged_pivot hr hc hleaving hentering
  obtain ⟨hbasic', hnonBasic', -⟩ := tables_pivot hleaving' hentering'
  constructor
  · rw [hbasic', hbasic]
    exact setIfInBounds_setIfInBounds_of_join _ hleaving
  · rw [hnonBasic', hnonBasic]
    exact setIfInBounds_setIfInBounds_of_join _ hentering

/-- The second pivot sends every variable back to its row or column. -/
theorem places_pivot_pivot (h : d.IsNamed) (hr : r ∈ d.rows) (hc : c ∈ d.columns) (index : Nat) :
    ((d.pivot r c).pivot r c).row? index = d.row? index ∧
      ((d.pivot r c).pivot r c).column? index = d.column? index := by
  obtain ⟨leaving, hleaving, hleavingRow, hleavingColumn⟩ := h.basic_placed r hr
  obtain ⟨entering, hentering, henteringColumn, henteringRow⟩ := h.nonBasic_placed c hc
  have hne : leaving ≠ entering := h.basicAt_ne_nonBasicAt hr hc hleaving hentering
  obtain ⟨hleaving', hentering'⟩ := exchanged_pivot hr hc hleaving hentering
  have hrow : (d.pivot r c).row? index = _ := row?_exchange hleaving hentering index
  have hcolumn : (d.pivot r c).column? index = _ := column?_exchange hleaving hentering index
  have hrow' : ((d.pivot r c).pivot r c).row? index = _ :=
    row?_exchange hleaving' hentering' index
  have hcolumn' : ((d.pivot r c).pivot r c).column? index = _ :=
    column?_exchange hleaving' hentering' index
  rw [hrow', hcolumn', hrow, hcolumn]
  by_cases henter : index = entering
  · subst henter
    simp [henteringRow, henteringColumn]
  by_cases hleave : index = leaving
  · subst hleave
    simp [hne, hleavingRow, hleavingColumn]
  · simp [henter, hleave]

/-- The tables of places get no new slots, if both have a slot for every index that one of
them has. -/
theorem slots_pivot_pivot (h : d.IsNamed) (hr : r ∈ d.rows) (hc : c ∈ d.columns)
    (hslots : d.rowOf.slots.size = d.columnOf.slots.size) :
    ((d.pivot r c).pivot r c).rowOf.slots.size = d.rowOf.slots.size ∧
      ((d.pivot r c).pivot r c).columnOf.slots.size = d.columnOf.slots.size := by
  obtain ⟨leaving, hleaving, hleavingRow, -⟩ := h.basic_placed r hr
  obtain ⟨entering, hentering, henteringColumn, -⟩ := h.nonBasic_placed c hc
  obtain ⟨-, -, hrowOf, hcolumnOf⟩ := tables_pivot hleaving hentering
  obtain ⟨hleaving', hentering'⟩ := exchanged_pivot hr hc hleaving hentering
  obtain ⟨-, -, hrowOf', hcolumnOf'⟩ := tables_pivot hleaving' hentering'
  have hleavingSlot : leaving < d.rowOf.slots.size := Places.lt_size_of_position hleavingRow
  have henteringSlot : entering < d.columnOf.slots.size :=
    Places.lt_size_of_position henteringColumn
  rw [hrowOf', hcolumnOf', hrowOf, hcolumnOf]
  simp only [Places.size_clear, Places.size_place]
  omega

end Names

/-! ## Numbers -/

variable {d : Dictionary Rat} {r c : Nat}

theorem entry_pivot_self (h : d.HasBasis) (hr : r ∈ d.rows) (hc : c ∈ d.columns)
    (hexact : d.PivotExact r c) : (d.pivot r c).entry r c = 1 / d.entry r c := by
  have hsize : (d.row r).size = d.width := h.row_size r (mem_rows.1 hr).2
  have hcolumn : c < (d.row r).size := (mem_columns.1 hc).2.trans_eq hsize.symm
  have hmatrix : r < d.matrix.size := (mem_rows.1 hr).2.trans_eq h.matrix_size.symm
  rw [entry, row_pivot d r c hmatrix, if_pos rfl,
    entryOf_normalise hexact.row_exact hcolumn _ hcolumn, if_pos rfl]

/-- Two exact pivots at the same place lead back to the same numbers and names. -/
theorem sameEntries_pivot_pivot (h : d.HasBasis) (hr : r ∈ d.rows) (hc : c ∈ d.columns)
    (hkeeps : d.PivotKeeps r c) (hexact : (d.pivot r c).PivotExact r c) :
    SameEntries d ((d.pivot r c).pivot r c) := by
  have hr' : r ∈ (d.pivot r c).rows := mem_rows_pivot.2 hr
  have hc' : c ∈ (d.pivot r c).columns := by
    rw [mem_columns, width_pivot, ← mem_columns]
    exact hc
  have hne : (d.pivot r c).entry r c ≠ 0 := by
    rw [entry_pivot_self h hr hc hkeeps.1]
    exact one_div_ne_zero hkeeps.2
  have hrun : PivotsTo PivotKeeps d ((d.pivot r c).pivot r c) :=
    .step hr hc hkeeps (.step hr' hc' ⟨hexact, hne⟩ (.refl _))
  obtain ⟨hbasic, hnonBasic⟩ := names_pivot_pivot h.toIsNamed hr hc
  have hheight : 0 < d.height := (mem_rows.1 hr).1.trans (mem_rows.1 hr).2
  exact (hrun.sameProgram h).sameEntries h (hrun.hasBasis h) hheight hbasic hnonBasic
    hrun.priorities_eq

/-- A dictionary is made of its numbers, its names and their places. -/
theorem SameEntries.eq {d' : Dictionary Rat} (h : SameEntries d d') (hrowOf : d'.rowOf = d.rowOf)
    (hcolumnOf : d'.columnOf = d.columnOf) : d' = d := by
  cases d
  cases d'
  obtain ⟨hmatrix, hbasic, hnonBasic, hsecondary⟩ := h
  subst hmatrix hbasic hnonBasic hsecondary hrowOf hcolumnOf
  rfl

end Dictionary

namespace Tableau

/-- A pivot changes no solution and is its own inverse.  Let it be on an entry other than
zero, with no entry of its row and its column so small that it would be dropped.  An assignment
satisfies the rows after the pivot exactly if it satisfies them before, and then all objectives
have the same values.  If the entries after the pivot are not too small either, a second pivot
at the same place brings back the matrix, the secondary objectives and the four tables: the
tables of places position by position, and slot by slot where both have the same number of
slots. -/
theorem pivot_pivot_restores (t : Tableau Rat) (r c : Nat) (hvalidate : t.validate = .ok ())
    (hsecondary : ∀ objective ∈ t.dictionary.secondary,
      objective.reducedCosts.size = t.dictionary.width)
    (hr : r ∈ t.dictionary.rows) (hc : c ∈ t.dictionary.columns)
    (hentry : t.dictionary.entry r c ≠ 0) (hexact : t.dictionary.PivotExact r c) :
    (∀ x, (t.pivot r c).dictionary.Satisfies x ↔ t.dictionary.Satisfies x) ∧
      (∀ x, t.dictionary.Satisfies x →
        (t.pivot r c).dictionary.objectiveVector x = t.dictionary.objectiveVector x) ∧
      ((t.pivot r c).dictionary.PivotExact r c →
        Dictionary.SameEntries t.dictionary ((t.pivot r c).pivot r c).dictionary ∧
          (∀ index, ((t.pivot r c).pivot r c).dictionary.row? index = t.dictionary.row? index) ∧
          (∀ index,
            ((t.pivot r c).pivot r c).dictionary.column? index = t.dictionary.column? index) ∧
          (t.dictionary.rowOf.slots.size = t.dictionary.columnOf.slots.size →
            (t.pivot r c).pivot r c = t)) := by
  have hbasis := hasBasis_of_validate hvalidate hsecondary
  have hkeeps : t.dictionary.PivotKeeps r c := ⟨hexact, hentry⟩
  refine ⟨fun x => Dictionary.satisfies_pivot hbasis hr hc hkeeps,
    fun x hx => Dictionary.objectiveVector_pivot hbasis hr hc hkeeps hx, ?_⟩
  intro hexact'
  have hentries := Dictionary.sameEntries_pivot_pivot hbasis hr hc hkeeps hexact'
  have hplaces := Dictionary.places_pivot_pivot hbasis.toIsNamed hr hc
  refine ⟨hentries, fun index => (hplaces index).1, fun index => (hplaces index).2, ?_⟩
  intro hslots
  obtain ⟨hrowSlots, hcolumnSlots⟩ :=
    Dictionary.slots_pivot_pivot hbasis.toIsNamed hr hc hslots
  have hdictionary : (t.dictionary.pivot r c).pivot r c = t.dictionary :=
    hentries.eq (Places.eq_of_position hrowSlots fun index => (hplaces index).1)
      (Places.eq_of_position hcolumnSlots fun index => (hplaces index).2)
  calc (t.pivot r c).pivot r c
      = { t with dictionary := (t.dictionary.pivot r c).pivot r c } := rfl
    _ = t := by rw [hdictionary]

/-- Two variables under two bounds with two objectives, where both tables of places have a
slot for every index. -/
def evenGoals : Tableau Rat :=
  { twoGoals with
    dictionary :=
      { twoGoals.dictionary with columnOf := ⟨#[some 1, some 2, none, none]⟩ } }

theorem pivot_pivot_restores_evenGoals :
    let x : Nat → Rat := fun index => [4, 1, 2, 1].getD index 0
    evenGoals.dictionary.Satisfies x ∧ (evenGoals.pivot 1 1).dictionary.Satisfies x ∧
      (evenGoals.pivot 1 1).dictionary.objectiveVector x =
        evenGoals.dictionary.objectiveVector x ∧
      evenGoals.pivot 1 1 ≠ evenGoals ∧ (evenGoals.pivot 1 1).pivot 1 1 = evenGoals := by
  intro x
  obtain ⟨hsatisfies, hobjectives, hrestores⟩ := pivot_pivot_restores evenGoals 1 1
    (by decide +kernel) (by decide +kernel) (by decide +kernel) (by decide +kernel)
    (by decide +kernel) (by decide +kernel)
  have hpoint : evenGoals.dictionary.Satisfies x := by
    intro r hr index hindex
    have hrows : evenGoals.dictionary.rows = [1, 2] := by decide +kernel
    rw [hrows, List.mem_cons, List.mem_singleton] at hr
    rcases hr with rfl | rfl
    · obtain rfl : 2 = index := Option.some.inj hindex
      decide +kernel
    · obtain rfl : 3 = index := Option.some.inj hindex
      decide +kernel
  exact ⟨hpoint, (hsatisfies x).2 hpoint, hobjectives x hpoint, by decide +kernel,
    (hrestores (by decide +kernel)).2.2.2 (by decide +kernel)⟩

end Tableau

end MixedInteger
