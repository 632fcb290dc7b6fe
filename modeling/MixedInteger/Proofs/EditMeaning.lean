import MixedInteger.Proofs.Meaning

/-!
# What edits of a dictionary mean

An edit changes the equations and objectives of a dictionary in a way that can be told
without looking at its rows.  A new right-hand side or coefficient amounts to another
value of the slack that owns the row, a dropped column to the value zero of its
variable.  A new row is one more equation, and a dropped one leaves its slack open.
-/

namespace MixedInteger

namespace Dictionary

variable {d : Dictionary Rat} {r c slack index : Nat} {x : Nat → Rat}

/-! ## Rows -/

theorem rowValue_addAt_zero {row : Array Rat} (hrow : 0 < row.size) (difference : Rat)
    (x : Nat → Rat) :
    d.rowValue (addAt row 0 difference) x = d.rowValue row x + difference := by
  have hsum : ∑ e ∈ Finset.Ico 1 d.width, entryOf (addAt row 0 difference) e * x (d.nameAt e) =
      ∑ e ∈ Finset.Ico 1 d.width, entryOf row e * x (d.nameAt e) := by
    apply Finset.sum_congr rfl
    intro e he
    have hpos := (Finset.mem_Ico.1 he).1
    rw [entryOf_addAt hrow, if_neg (by omega)]
  rw [rowValue, rowValue, hsum, entryOf_addAt hrow, if_pos rfl]
  ring

theorem rowValue_addAt {row : Array Rat} (hrow : row.size = d.width) (hc : c ∈ d.columns)
    (difference : Rat) (x : Nat → Rat) :
    d.rowValue (addAt row c difference) x =
      d.rowValue row x - difference * x (d.nameAt c) := by
  obtain ⟨hpos, hlt⟩ := mem_columns.1 hc
  have hentry (e : Nat) : entryOf (addAt row c difference) e =
      if e = c then entryOf row e + difference else entryOf row e :=
    entryOf_addAt (by rw [hrow]; exact hlt) difference e
  have hrest : d.restValue c (addAt row c difference) x = d.restValue c row x := by
    apply Finset.sum_congr rfl
    intro e he
    rw [hentry, if_neg (Finset.ne_of_mem_erase he)]
  rw [rowValue_eq_rest hc, rowValue_eq_rest hc, hrest, hentry, hentry, if_pos rfl,
    if_neg (by omega)]
  ring

theorem rowValue_subtractMultiple {row : Array Rat} (hrow : row.size = d.width)
    (hwidth : 0 < d.width) (factor : Rat) (source : Array Rat) (x : Nat → Rat) :
    d.rowValue (subtractMultiple row factor source) x =
      d.rowValue row x - factor * d.rowValue source x := by
  have hsum : ∑ e ∈ Finset.Ico 1 d.width,
      entryOf (subtractMultiple row factor source) e * x (d.nameAt e) =
        ∑ e ∈ Finset.Ico 1 d.width, entryOf row e * x (d.nameAt e) -
          factor * ∑ e ∈ Finset.Ico 1 d.width, entryOf source e * x (d.nameAt e) := by
    rw [Finset.mul_sum, ← Finset.sum_sub_distrib]
    apply Finset.sum_congr rfl
    intro e he
    rw [entryOf_subtractMultiple (by rw [hrow]; exact (Finset.mem_Ico.1 he).2)]
    ring
  rw [rowValue, rowValue, rowValue, hsum, entryOf_subtractMultiple (by rw [hrow]; exact hwidth)]
  ring

/-- Moving the right-hand side along a column moves the variable of the column. -/
theorem rowValue_shiftAlong (h : d.IsNamed) (hc : c ∈ d.columns) {row : Array Rat}
    (hrow : row.size = d.width) (difference : Rat) (x : Nat → Rat) :
    d.rowValue (Tableau.shiftAlong c difference row) x =
      d.rowValue row (Function.update x (d.nameAt c) (x (d.nameAt c) - difference)) := by
  obtain ⟨hpos, hlt⟩ := mem_columns.1 hc
  have hentry (e : Nat) : entryOf (Tableau.shiftAlong c difference row) e =
      if e = 0 then entryOf row 0 + difference * entryOf row c else entryOf row e :=
    entryOf_shiftAlong (by omega) c difference e
  have hrest : d.restValue c (Tableau.shiftAlong c difference row) x =
      d.restValue c row (Function.update x (d.nameAt c) (x (d.nameAt c) - difference)) := by
    apply Finset.sum_congr rfl
    intro e he
    obtain ⟨hne, hmem⟩ := Finset.mem_erase.1 he
    have he' : e ∈ d.columns := mem_columns_iff_mem_Ico.2 hmem
    rw [hentry, if_neg (by have := (mem_columns.1 he').1; omega),
      Function.update_of_ne (h.nameAt_ne_of_ne hc he' hne)]
  rw [rowValue_eq_rest hc, rowValue_eq_rest hc, hrest, hentry, hentry, if_pos rfl,
    if_neg (by omega), Function.update_self]
  ring

theorem rowValue_slackRow {d' : Dictionary Rat} (hwidth : 0 < d'.width) (isUpperBound : Bool)
    (rhs : Rat) (x : Nat → Rat) :
    d.rowValue (Tableau.slackRow d' isUpperBound rhs) x = boundSign isUpperBound * rhs := by
  have hentry (e : Nat) : entryOf (Tableau.slackRow d' isUpperBound rhs) e =
      if e = 0 then boundSign isUpperBound * rhs else 0 := by
    rw [Tableau.slackRow, entryOf_setIfInBounds (by simpa using hwidth), entryOf_replicate_zero]
  rw [rowValue, hentry, if_pos rfl, sub_eq_self]
  apply Finset.sum_eq_zero
  intro e he
  have hpos := (Finset.mem_Ico.1 he).1
  rw [hentry, if_neg (by omega), zero_mul]

/-- A variable can be added to a row wherever it stands, if its own row holds. -/
theorem rowValue_addToRow? (h : d.IsConsistent) {coefficient : Rat} {row row' : Array Rat}
    (hrow : row.size = d.width)
    (hrow' : Tableau.addToRow? d index coefficient row = some row')
    (hx : ∀ s ∈ d.rows, d.basicAt s = some index → x index = d.rowValue (d.row s) x) :
    d.rowValue row' x = d.rowValue row x - coefficient * x index := by
  unfold Tableau.addToRow? at hrow'
  cases hcolumn : d.column? index with
  | some c =>
    rw [hcolumn] at hrow'
    obtain ⟨hc, hname⟩ := h.column?_eq_some_iff.1 hcolumn
    rw [← Option.some.inj hrow', rowValue_addAt hrow hc, IsNamed.nameAt_eq hname]
  | none =>
    rw [hcolumn] at hrow'
    obtain ⟨s, hs, hsource⟩ := Option.map_eq_some_iff.1 hrow'
    obtain ⟨hmem, hname⟩ := h.row?_eq_some_iff.1 hs
    rw [← hsource, rowValue_subtractMultiple hrow h.columns_agree.size_pos, ← hx s hmem hname]

/-! ## One row apart from the others -/

/-- Every basic variable but that of one row has the value of its row. -/
def SatisfiesExcept (d : Dictionary Rat) (r : Nat) (x : Nat → Rat) : Prop :=
  ∀ s ∈ d.rows, s ≠ r → ∀ index, d.basicAt s = some index → x index = d.rowValue (d.row s) x

theorem satisfies_iff_except (hr : r ∈ d.rows) (hslack : d.basicAt r = some slack) :
    d.Satisfies x ↔ d.SatisfiesExcept r x ∧ x slack = d.rowValue (d.row r) x := by
  constructor
  · intro hx
    exact ⟨fun s hs _ => hx s hs, hx r hr slack hslack⟩
  · intro hx s hs index hindex
    by_cases hne : s = r
    · subst hne
      rw [hslack, Option.some.injEq] at hindex
      rw [← hindex]
      exact hx.2
    · exact hx.1 s hs hne index hindex

/-- The other rows do not mention the basic variable of a row. -/
theorem satisfiesExcept_update (h : d.IsNamed) (hr : r ∈ d.rows)
    (hslack : d.basicAt r = some slack) (value : Rat) :
    d.SatisfiesExcept r (Function.update x slack value) ↔ d.SatisfiesExcept r x := by
  have hname {c : Nat} (hc : c ∈ d.columns) : d.nameAt c ≠ slack := h.nameAt_ne_basic hr hslack hc
  have hother {s index : Nat} (hs : s ∈ d.rows) (hne : s ≠ r) (hindex : d.basicAt s = some index) :
      index ≠ slack := by
    intro heq
    rw [heq] at hindex
    exact hne (h.basicAt_inj hs hr hindex hslack)
  constructor
  · intro hx s hs hne index hindex
    have hrow := hx s hs hne index hindex
    rwa [Function.update_of_ne (hother hs hne hindex), rowValue_update fun c hc => hname hc] at hrow
  · intro hx s hs hne index hindex
    rw [Function.update_of_ne (hother hs hne hindex), rowValue_update fun c hc => hname hc]
    exact hx s hs hne index hindex

theorem objectiveAt_update (h : d.IsNamed) (hr : r ∈ d.rows) (hslack : d.basicAt r = some slack)
    (priority : Priority) (x : Nat → Rat) (value : Rat) :
    d.objectiveAt priority (Function.update x slack value) = d.objectiveAt priority x :=
  rowValue_update (fun _ hc => h.nameAt_ne_basic hr hslack hc) _ _ _

/-- A changed row reads the assignment with another value of its basic variable. -/
theorem readsThrough_modifyRow (h : d.HasBasis) (hr : r ∈ d.rows)
    (hslack : d.basicAt r = some slack) {change : Array Rat → Array Rat}
    (value : (Nat → Rat) → Rat)
    (hvalue : ∀ x, d.SatisfiesExcept r x →
      (x slack = d.rowValue (change (d.row r)) x ↔ value x = d.rowValue (d.row r) x)) :
    ReadsThrough (fun x => Function.update x slack (value x)) d (d.modifyRow r change) := by
  obtain ⟨hpos, hlt⟩ := mem_rows.1 hr
  have hrow (i : Nat) : (d.modifyRow r change).row i =
      if r = i then change (d.row i) else d.row i := by
    rw [row_modifyRow]
    by_cases hri : r = i
    · rw [if_pos ⟨hri, by rw [h.matrix_size, ← hri]; exact hlt⟩, if_pos hri]
    · rw [if_neg (fun hand => hri hand.1), if_neg hri]
  have hexcept (x : Nat → Rat) :
      (d.modifyRow r change).SatisfiesExcept r x ↔ d.SatisfiesExcept r x := by
    apply forall_congr'
    intro s
    apply forall₂_congr
    intro _ hne
    rw [hrow, if_neg hne.symm]
    exact Iff.rfl
  constructor
  · intro x
    have hsame : (Function.update x slack (value x)) slack = value x := Function.update_self ..
    rw [satisfies_iff_except (d := d.modifyRow r change) hr hslack, hexcept, hrow, if_pos rfl,
      satisfies_iff_except hr hslack, satisfiesExcept_update h.toIsNamed hr hslack, hsame,
      rowValue_update fun _ hc => h.nameAt_ne_basic hr hslack hc]
    exact and_congr_right (hvalue x)
  · intro x _ priority
    rw [objectiveAt_update h.toIsNamed hr hslack]
    apply rowValue_congr rfl
    · rw [objectiveRow_modifyRow hpos]
    · intro e _
      rw [objectiveRow_modifyRow hpos]

/-! ## Right-hand sides and coefficients -/

theorem readsThrough_addAt (h : d.HasBasis) (hr : r ∈ d.rows) (hslack : d.basicAt r = some slack)
    (hwidth : 0 < d.width) (difference : Rat) :
    ReadsThrough (fun x => Function.update x slack (x slack - difference)) d
      (d.modifyRow r fun row => addAt row 0 difference) := by
  apply readsThrough_modifyRow h hr hslack
  intro x _
  rw [rowValue_addAt_zero (by rw [h.row_size r (mem_rows.1 hr).2]; exact hwidth),
    sub_eq_iff_eq_add]

theorem readsThrough_addToRow? (h : d.IsConsistent) (hr : r ∈ d.rows)
    (hslack : d.basicAt r = some slack) (hne : slack ≠ index) {difference : Rat}
    {row : Array Rat} (hrow : Tableau.addToRow? d index difference (d.row r) = some row) :
    ReadsThrough (fun x => Function.update x slack (x slack + difference * x index)) d
      (d.modifyRow r fun _ => row) := by
  apply readsThrough_modifyRow h.hasBasis hr hslack
  intro x hx
  have hother : ∀ s ∈ d.rows, d.basicAt s = some index → x index = d.rowValue (d.row s) x := by
    intro s hs hindex
    apply hx s hs _ index hindex
    intro heq
    rw [heq, hslack] at hindex
    exact hne (Option.some.inj hindex)
  rw [rowValue_addToRow? h (h.row_size r (mem_rows.1 hr).2) hrow hother, eq_sub_iff_add_eq]

theorem readsThrough_shiftRhs (h : d.HasBasis) (hheight : 0 < d.height) (hc : c ∈ d.columns)
    (hslack : d.nonBasicAt c = some slack) (difference : Rat) :
    ReadsThrough (fun x => Function.update x slack (x slack - difference)) d
      (d.shiftRhs c difference) := by
  have hname : d.nameAt c = slack := IsNamed.nameAt_eq hslack
  have hpos : 0 < d.width := Nat.lt_trans (mem_columns.1 hc).1 (mem_columns.1 hc).2
  have hrow {i : Nat} (hi : i < d.height) :
      (d.shiftRhs c difference).row i = Tableau.shiftAlong c difference (d.row i) := by
    have hi' : i < d.matrix.size := by
      rw [h.matrix_size]
      exact hi
    simp [row_eq, shiftRhs, hi']
  have hvalue {row : Array Rat} (hsize : row.size = d.width) (x : Nat → Rat) :
      (d.shiftRhs c difference).rowValue (Tableau.shiftAlong c difference row) x =
        d.rowValue row (Function.update x slack (x slack - difference)) := by
    rw [← hname]
    exact rowValue_shiftAlong h.toIsNamed hc hsize difference x
  constructor
  · intro x
    apply forall₂_congr
    intro r hr
    apply forall₂_congr
    intro index hindex
    have hne : index ≠ slack := h.basicAt_ne_nonBasicAt hr hc hindex hslack
    rw [hrow (mem_rows.1 hr).2, hvalue (h.row_size r (mem_rows.1 hr).2), Function.update_of_ne hne]
  · intro x _ priority
    have hblank (e : Nat) :
        entryOf (Tableau.shiftAlong c difference (Array.replicate d.width 0)) e = 0 := by
      rw [entryOf_shiftAlong (by simpa using hpos), entryOf_replicate_zero,
        entryOf_replicate_zero, entryOf_replicate_zero, mul_zero, add_zero, ite_self]
    have hentry := entryOf_objectiveRow_of_map _ (hrow hheight) rfl hblank priority
    rw [objectiveAt, objectiveAt,
      ← hvalue (size_objectiveRow h.toIsRectangular hheight priority)]
    apply rowValue_congr rfl (hentry 0)
    intro e _
    rw [hentry e]

/-! ## Costs -/

theorem rowValue_of_nonBasic {d' : Dictionary Rat} (hnames : d'.nonBasic = d.nonBasic)
    (row : Array Rat) (x : Nat → Rat) : d'.rowValue row x = d.rowValue row x := by
  have hwidth : d'.width = d.width := congrArg Array.size hnames
  apply rowValue_congr hwidth rfl
  intro c _
  rw [nameAt, nonBasicAt, hnames]
  rfl

theorem satisfies_modifyObjective (priority : Priority) (change : Array Rat → Array Rat) :
    (d.modifyObjective priority change).Satisfies x ↔ d.Satisfies x := by
  have hbasic := basic_modifyObjective d priority change
  have hrows : (d.modifyObjective priority change).rows = d.rows := by
    rw [rows, rows, height, height, hbasic]
  rw [Satisfies, Satisfies, hrows]
  apply forall₂_congr
  intro r hr
  rw [basicAt, hbasic, row_modifyObjective priority change (mem_rows.1 hr).1,
    rowValue_of_nonBasic (nonBasic_modifyObjective d priority change)]
  exact Iff.rfl

theorem objectiveAt_modifyObjective (h : d.IsRanked) (hmatrix : 0 < d.matrix.size)
    (priority : Priority) (change : Array Rat → Array Rat) (other : Priority) :
    (d.modifyObjective priority change).objectiveAt other x =
      if other.level = priority.level then d.rowValue (change (d.objectiveRow other)) x
      else d.objectiveAt other x := by
  rw [objectiveAt, objectiveRow_modifyObjective h hmatrix,
    rowValue_of_nonBasic (nonBasic_modifyObjective d priority change)]
  split <;> rfl

/-! ## New rows and columns -/

theorem join_getElem?_push (names : Array (Option Nat)) (name i : Nat) :
    (names.push (some name))[i]?.join = if i = names.size then some name else names[i]?.join := by
  rw [Array.getElem?_push]
  split <;> rfl

theorem satisfies_pushRow (h : d.IsConsistent) (row : Array Rat) :
    (d.pushRow slack row).Satisfies x ↔ d.Satisfies x ∧ x slack = d.rowValue row x := by
  have hheight : (d.pushRow slack row).height = d.height + 1 := Array.size_push ..
  have hvalue (row' : Array Rat) : (d.pushRow slack row).rowValue row' x = d.rowValue row' x :=
    rowValue_of_nonBasic rfl row' x
  have hbasicAt (r : Nat) : (d.pushRow slack row).basicAt r =
      if r = d.height then some slack else d.basicAt r :=
    join_getElem?_push d.basic slack r
  have hrow (r : Nat) : (d.pushRow slack row).row r = if r = d.height then row else d.row r := by
    rw [row_pushRow, h.matrix_size]
  have hpos : 0 < d.height := h.rows_agree.size_pos
  constructor
  · intro hx
    constructor
    · intro r hr index hindex
      have hlt := (mem_rows.1 hr).2
      have hr' : r ∈ (d.pushRow slack row).rows := by
        rw [mem_rows, hheight]
        exact ⟨(mem_rows.1 hr).1, by omega⟩
      have hne : r ≠ d.height := by omega
      have hold := hx r hr' index (by rw [hbasicAt, if_neg hne]; exact hindex)
      rwa [hrow, if_neg hne, hvalue] at hold
    · have hnew := hx d.height (by rw [mem_rows, hheight]; omega) slack
        (by rw [hbasicAt, if_pos rfl])
      rwa [hrow, if_pos rfl, hvalue] at hnew
  · intro hx r hr index hindex
    rw [mem_rows, hheight] at hr
    rw [hbasicAt] at hindex
    rw [hrow, hvalue]
    by_cases hlast : r = d.height
    · rw [if_pos hlast, Option.some.injEq] at hindex
      rw [if_pos hlast, ← hindex]
      exact hx.2
    · rw [if_neg hlast] at hindex ⊢
      exact hx.1 r (mem_rows.2 ⟨hr.1, by omega⟩) index hindex

theorem objectiveAt_pushRow (h : d.IsConsistent) (row : Array Rat) (priority : Priority) :
    (d.pushRow slack row).objectiveAt priority x = d.objectiveAt priority x := by
  have hzero : (d.pushRow slack row).row 0 = d.row 0 := by
    have hpos : 0 < d.height := h.rows_agree.size_pos
    rw [row_pushRow, h.matrix_size, if_neg (by omega)]
  have hrow : (d.pushRow slack row).objectiveRow priority = d.objectiveRow priority := by
    rw [objectiveRow, objectiveRow, hzero]
    rfl
  rw [objectiveAt, hrow]
  exact rowValue_of_nonBasic rfl _ _

theorem nonBasicAt_pushColumn (d : Dictionary Rat) (index e : Nat) :
    (d.pushColumn index).nonBasicAt e =
      if e = d.width then some index else d.nonBasicAt e :=
  join_getElem?_push d.nonBasic index e

/-- The terms of a row before and behind a new last column. -/
theorem rowValue_pushColumn (hwidth : 0 < d.width) {row row' : Array Rat}
    (hrow : ∀ e < d.width, entryOf row' e = entryOf row e) (x : Nat → Rat) :
    (d.pushColumn index).rowValue row' x =
      d.rowValue row x - entryOf row' d.width * x index := by
  have hname (e : Nat) : (d.pushColumn index).nameAt e =
      if e = d.width then index else d.nameAt e := by
    rw [nameAt, nonBasicAt_pushColumn]
    split <;> rfl
  have hsum : ∑ e ∈ Finset.Ico 1 d.width, entryOf row' e * x ((d.pushColumn index).nameAt e) =
      ∑ e ∈ Finset.Ico 1 d.width, entryOf row e * x (d.nameAt e) := by
    apply Finset.sum_congr rfl
    intro e he
    have hlt := (Finset.mem_Ico.1 he).2
    rw [hrow e hlt, hname, if_neg (by omega)]
  rw [rowValue, rowValue, width_pushColumn, Finset.sum_Ico_succ_top hwidth, hsum, hrow 0 hwidth,
    hname, if_pos rfl]
  ring

theorem rowValue_push_zero (hwidth : 0 < d.width) {row : Array Rat} (hrow : row.size = d.width)
    (index : Nat) (x : Nat → Rat) :
    (d.pushColumn index).rowValue (row.push 0) x = d.rowValue row x := by
  have hentry (e : Nat) : entryOf (row.push 0) e = entryOf row e := by
    rw [entryOf_push]
    split
    · next he => exact (entryOf_of_size_le (Nat.le_of_eq he.symm)).symm
    · rfl
  rw [rowValue_pushColumn hwidth fun e _ => hentry e, hentry,
    entryOf_of_size_le (Nat.le_of_eq hrow), zero_mul, sub_zero]

theorem satisfies_pushColumn (h : d.IsConsistent) :
    (d.pushColumn index).Satisfies x ↔ d.Satisfies x := by
  apply forall₂_congr
  intro r hr
  have hlt := (mem_rows.1 hr).2
  rw [row_pushColumn d index (by rw [h.matrix_size]; exact hlt),
    rowValue_push_zero h.columns_agree.size_pos (h.row_size r hlt)]
  exact Iff.rfl

theorem size_objectiveRow_of_isConsistent (h : d.IsConsistent) (priority : Priority) :
    (d.objectiveRow priority).size = d.width :=
  size_objectiveRow h.toIsRectangular h.rows_agree.size_pos priority

theorem entryOf_objectiveRow_pushColumn (h : d.IsConsistent) (index : Nat) (priority : Priority)
    (e : Nat) :
    entryOf ((d.pushColumn index).objectiveRow priority) e =
      entryOf ((d.objectiveRow priority).push 0) e := by
  apply entryOf_objectiveRow_of_map fun row => row.push 0
  · exact row_pushColumn d index (by rw [h.matrix_size]; exact h.rows_agree.size_pos)
  · rfl
  · intro c
    rw [entryOf_push, entryOf_replicate_zero, ite_self]

theorem satisfies_pushVariable (h : d.IsConsistent) (priority : Priority) (cost : Rat) :
    (Tableau.pushVariable d index priority cost).Satisfies x ↔ d.Satisfies x := by
  rw [Tableau.pushVariable, satisfies_modifyObjective, satisfies_pushColumn h]

theorem objectiveAt_pushVariable (h : d.IsConsistent) (hindex : ¬ d.Mentions index)
    (priority : Priority) (cost : Rat) (other : Priority) :
    (Tableau.pushVariable d index priority cost).objectiveAt other x =
      d.objectiveAt other x - if other.level = priority.level then cost * x index else 0 := by
  have hwidth : 0 < d.width := h.columns_agree.size_pos
  have hpushed := h.pushColumn hindex
  have hsize := size_objectiveRow_of_isConsistent h other
  have hsize' := size_objectiveRow_of_isConsistent hpushed other
  have hentry := entryOf_objectiveRow_pushColumn h index other
  rw [Tableau.pushVariable, objectiveAt_modifyObjective hpushed.toIsRanked
    (by rw [hpushed.matrix_size]; exact hpushed.rows_agree.size_pos)]
  split
  · have hset (e : Nat) := entryOf_setIfInBounds
      (by rw [hsize', width_pushColumn]; exact Nat.lt_succ_self d.width) cost e
    have hold : ∀ e < d.width, entryOf (((d.pushColumn index).objectiveRow other).setIfInBounds
        d.width cost) e = entryOf (d.objectiveRow other) e := by
      intro e he
      rw [hset, if_neg (by omega), hentry, entryOf_push, if_neg (by omega)]
    rw [rowValue_pushColumn hwidth hold, hset, if_pos rfl]
    rfl
  · rw [sub_zero, objectiveAt, objectiveAt, ← rowValue_push_zero hwidth hsize index]
    apply rowValue_congr rfl (hentry 0)
    intro e _
    rw [hentry e]

/-! ## Dropped rows and columns -/

/-- Without a row, its basic variable is free to take any value. -/
theorem satisfies_dropRow_forget (h : d.HasBasis) (hr : r ∈ d.rows) :
    ((d.dropRow r).forget slack).Satisfies x ↔ d.SatisfiesExcept r x := by
  obtain ⟨hpos, hlt⟩ := mem_rows.1 hr
  have hheight : ((d.dropRow r).forget slack).height = d.height - 1 := size_swapErase ..
  have hvalue (row : Array Rat) :
      ((d.dropRow r).forget slack).rowValue row x = d.rowValue row x :=
    rowValue_of_nonBasic rfl row x
  have hbasicAt {i : Nat} (hi : i + 1 < d.height) : ((d.dropRow r).forget slack).basicAt i =
      if i = r then d.basicAt (d.height - 1) else d.basicAt i :=
    (join_swapErase hlt i).trans (if_pos hi)
  have hrow {i : Nat} (hi : i + 1 < d.height) : ((d.dropRow r).forget slack).row i =
      if i = r then d.row (d.height - 1) else d.row i := by
    have hdrop := row_dropRow d (by rw [h.matrix_size]; exact hlt) i
    rw [h.matrix_size, if_pos hi] at hdrop
    exact hdrop
  have hmem {i : Nat} : i ∈ ((d.dropRow r).forget slack).rows ↔ 0 < i ∧ i + 1 < d.height := by
    rw [mem_rows, hheight]
    omega
  constructor
  · intro hx s hs hne index hindex
    obtain ⟨hspos, hslt⟩ := mem_rows.1 hs
    -- The last row has moved to the place of the dropped one.
    by_cases hlast : s = d.height - 1
    · have hr' : r + 1 < d.height := by omega
      have hmoved := hx r (hmem.2 ⟨hpos, hr'⟩) index
        (by rw [hbasicAt hr', if_pos rfl, ← hlast]; exact hindex)
      rwa [hrow hr', if_pos rfl, ← hlast, hvalue] at hmoved
    · have hs' : s + 1 < d.height := by omega
      have hkept := hx s (hmem.2 ⟨hspos, hs'⟩) index
        (by rw [hbasicAt hs', if_neg hne]; exact hindex)
      rwa [hrow hs', if_neg hne, hvalue] at hkept
  · intro hx i hi index hindex
    obtain ⟨hipos, hilt⟩ := hmem.1 hi
    rw [hbasicAt hilt] at hindex
    rw [hrow hilt, hvalue]
    by_cases heq : i = r
    · rw [if_pos heq] at hindex ⊢
      exact hx (d.height - 1) (mem_rows.2 ⟨by omega, by omega⟩) (by omega) index hindex
    · rw [if_neg heq] at hindex ⊢
      exact hx i (mem_rows.2 ⟨hipos, by omega⟩) heq index hindex

theorem satisfiesExcept_iff_exists (h : d.IsNamed) (hr : r ∈ d.rows)
    (hslack : d.basicAt r = some slack) :
    d.SatisfiesExcept r x ↔ ∃ value, d.Satisfies (Function.update x slack value) := by
  constructor
  · intro hx
    use d.rowValue (d.row r) x
    rw [satisfies_iff_except hr hslack, satisfiesExcept_update h hr hslack, Function.update_self,
      rowValue_update fun _ hc => h.nameAt_ne_basic hr hslack hc]
    exact ⟨hx, rfl⟩
  · intro hx
    obtain ⟨value, hvalue⟩ := hx
    rw [satisfies_iff_except hr hslack, satisfiesExcept_update h hr hslack] at hvalue
    exact hvalue.1

theorem objectiveAt_dropRow_forget (h : d.HasBasis) (hr : r ∈ d.rows) (priority : Priority) :
    ((d.dropRow r).forget slack).objectiveAt priority x = d.objectiveAt priority x := by
  obtain ⟨hpos, hlt⟩ := mem_rows.1 hr
  have hzero : ((d.dropRow r).forget slack).row 0 = d.row 0 := by
    have hdrop := row_dropRow d (by rw [h.matrix_size]; exact hlt) 0
    rw [h.matrix_size, if_pos (by omega), if_neg (by omega)] at hdrop
    exact hdrop
  have hrow : ((d.dropRow r).forget slack).objectiveRow priority = d.objectiveRow priority := by
    rw [objectiveRow, objectiveRow, hzero]
    rfl
  rw [objectiveAt, hrow]
  exact rowValue_of_nonBasic rfl _ _

/-- A sum does not change when a zero term makes place for the last one. -/
theorem sum_swap_last {n : Nat} (hn : 1 ≤ n) (hc : c ∈ Finset.Ico 1 (n + 1)) {f : Nat → Rat}
    (hzero : f c = 0) :
    ∑ e ∈ Finset.Ico 1 n, (if e = c then f n else f e) = ∑ e ∈ Finset.Ico 1 (n + 1), f e := by
  rw [Finset.sum_Ico_succ_top hn]
  by_cases hlast : c = n
  · have hsum : ∑ e ∈ Finset.Ico 1 n, (if e = c then f n else f e) =
        ∑ e ∈ Finset.Ico 1 n, f e := by
      apply Finset.sum_congr rfl
      intro e he
      rw [if_neg (by have := (Finset.mem_Ico.1 he).2; omega)]
    rw [hsum, ← hlast, hzero, add_zero]
  · have hmem : c ∈ Finset.Ico 1 n := by
      rw [Finset.mem_Ico] at hc ⊢
      omega
    have hrest : ∑ e ∈ (Finset.Ico 1 n).erase c, (if e = c then f n else f e) =
        ∑ e ∈ (Finset.Ico 1 n).erase c, f e := by
      apply Finset.sum_congr rfl
      intro e he
      rw [if_neg (Finset.ne_of_mem_erase he)]
    rw [← Finset.add_sum_erase _ (fun e => if e = c then f n else f e) hmem,
      ← Finset.add_sum_erase _ f hmem, hrest, if_pos rfl, hzero]
    ring

theorem rowValue_dropColumn_forget (h : d.IsNamed) (hc : c ∈ d.columns)
    (hindex : d.nonBasicAt c = some index) {row : Array Rat} (hrow : row.size = d.width)
    (x : Nat → Rat) :
    ((d.dropColumn c).forget index).rowValue (swapErase row c) x =
      d.rowValue row (Function.update x index 0) := by
  obtain ⟨hpos, hlt⟩ := mem_columns.1 hc
  obtain ⟨n, hn⟩ : ∃ n, d.width = n + 1 := Nat.exists_eq_succ_of_ne_zero (by omega)
  have hwidth : ((d.dropColumn c).forget index).width = n := by
    have hsize : ((d.dropColumn c).forget index).width = d.width - 1 := size_swapErase ..
    omega
  have hname {e : Nat} (he : e < n) : ((d.dropColumn c).forget index).nameAt e =
      if e = c then d.nameAt n else d.nameAt e := by
    have hnonBasic : ((d.dropColumn c).forget index).nonBasicAt e =
        if e = c then d.nonBasicAt (d.width - 1) else d.nonBasicAt e := by
      apply (join_swapErase hlt e).trans
      rw [← width, if_pos (by omega)]
      rfl
    rw [nameAt, hnonBasic, hn, Nat.add_sub_cancel]
    split <;> rfl
  have hentry {e : Nat} (he : e < n) : entryOf (swapErase row c) e =
      if e = c then entryOf row n else entryOf row e := by
    rw [entryOf_swapErase (by omega) (by omega), hrow, hn, Nat.add_sub_cancel]
  let f (e : Nat) : Rat := entryOf row e * Function.update x index 0 (d.nameAt e)
  have hzero : f c = 0 := by
    change entryOf row c * _ = 0
    rw [IsNamed.nameAt_eq hindex, Function.update_self, mul_zero]
  have hterm {e : Nat} (he : e ∈ d.columns) (hne : e ≠ c) :
      f e = entryOf row e * x (d.nameAt e) := by
    have hother := h.nameAt_ne_of_ne hc he hne
    rw [IsNamed.nameAt_eq hindex] at hother
    change _ * _ = _
    rw [Function.update_of_ne hother]
  have hsum : ∑ e ∈ Finset.Ico 1 n, entryOf (swapErase row c) e *
      x (((d.dropColumn c).forget index).nameAt e) =
        ∑ e ∈ Finset.Ico 1 n, (if e = c then f n else f e) := by
    apply Finset.sum_congr rfl
    intro e he
    obtain ⟨hepos, helt⟩ := Finset.mem_Ico.1 he
    rw [hentry helt, hname helt]
    by_cases heq : e = c
    · rw [if_pos heq, if_pos heq, if_pos heq, hterm (mem_columns.2 (by omega)) (by omega)]
    · rw [if_neg heq, if_neg heq, if_neg heq, hterm (mem_columns.2 (by omega)) heq]
  have hfirst : entryOf (swapErase row c) 0 = entryOf row 0 := by
    by_cases hn' : 0 < n
    · rw [hentry hn', if_neg (by omega)]
    · omega
  rw [rowValue, rowValue, hwidth, hfirst, hsum, sum_swap_last (by omega)
    (by rw [← hn]; exact mem_columns_iff_mem_Ico.1 hc) hzero, hn]

theorem readsThrough_dropColumn_forget (h : d.HasBasis) (hheight : 0 < d.height)
    (hc : c ∈ d.columns) (hindex : d.nonBasicAt c = some index) :
    ReadsThrough (fun x => Function.update x index 0) d ((d.dropColumn c).forget index) := by
  obtain ⟨hpos, hlt⟩ := mem_columns.1 hc
  have hrow {i : Nat} (hi : i < d.height) :
      ((d.dropColumn c).forget index).row i = swapErase (d.row i) c :=
    row_dropColumn d c (by rw [h.matrix_size]; exact hi)
  constructor
  · intro x
    apply forall₂_congr
    intro r hr
    apply forall₂_congr
    intro basic hbasic
    have hne : basic ≠ index := h.basicAt_ne_nonBasicAt hr hc hbasic hindex
    have hi := (mem_rows.1 hr).2
    rw [hrow hi, rowValue_dropColumn_forget h.toIsNamed hc hindex (h.row_size r hi),
      Function.update_of_ne hne]
  · intro x _ priority
    have hblank (e : Nat) : entryOf (swapErase (Array.replicate d.width (0 : Rat)) c) e = 0 := by
      by_cases he : e + 1 < d.width
      · rw [entryOf_swapErase (by simpa using hlt) (by simpa using he), entryOf_replicate_zero,
          entryOf_replicate_zero, ite_self]
      · apply entryOf_of_size_le
        rw [size_swapErase, Array.size_replicate]
        omega
    have hentry := entryOf_objectiveRow_of_map (fun row => swapErase row c) (hrow hheight) rfl
      hblank priority
    rw [objectiveAt, objectiveAt, ← rowValue_dropColumn_forget h.toIsNamed hc hindex
      (size_objectiveRow h.toIsRectangular hheight priority)]
    apply rowValue_congr rfl (hentry 0)
    intro e _
    rw [hentry e]

/-- Pivots before an edit do not matter. -/
theorem SameMeaning.readsThrough {change : (Nat → Rat) → Nat → Rat} {d' d'' : Dictionary Rat}
    (hsame : SameMeaning d d') (hreads : ReadsThrough change d' d'') :
    ReadsThrough change d d'' := by
  constructor
  · intro x
    exact (hreads.satisfies_iff x).trans (hsame.satisfies_iff (change x))
  · intro x hx priority
    rw [hreads.objective_eq x ((hsame.satisfies_iff (change x)).2 hx),
      hsame.objective_eq (change x) hx]

end Dictionary

/-! ## Edits of a tableau -/

namespace Tableau

variable {t middle : Tableau Rat} {slack index : Nat}

theorem orientBound_eq (isUpperBound : Bool) (difference : Rat) :
    orientBound isUpperBound difference = boundSign isUpperBound * difference := by
  cases isUpperBound with
  | true => exact (one_mul difference).symm
  | false => exact (neg_one_mul difference).symm

theorem OnlyPivoted.sameMeaning (h : t.IsSound)
    (hrun : OnlyPivoted Dictionary.PivotKeeps t middle) :
    t.dictionary.SameMeaning middle.dictionary :=
  hrun.2.sameMeaning h.consistent.hasBasis

theorem changeRhs_readsThrough (h : t.IsSound) (hquiet : t.snapshot = none)
    (hslack : t.dictionary.Mentions slack) (isUpperBound : Bool) (difference : Rat) :
    ∃ t', changeRhs slack isUpperBound difference t = .ok () t' ∧ SameFrame t t' ∧
      Dictionary.ReadsThrough
        (fun x => Function.update x slack (x slack - orientBound isUpperBound difference))
        t.dictionary t'.dictionary := by
  have hbasis := h.consistent.hasBasis
  rcases changeRhs_cases hquiet hslack isUpperBound difference with
    ⟨r, hrow, hchange⟩ | ⟨c, hcolumn, hchange⟩
  · obtain ⟨hr, hname⟩ := h.consistent.row?_eq_some_iff.1 hrow
    exact ⟨_, hchange, ⟨rfl, rfl, rfl, rfl, rfl⟩,
      Dictionary.readsThrough_addAt hbasis hr hname h.consistent.columns_agree.size_pos _⟩
  · obtain ⟨hc, hname⟩ := h.consistent.column?_eq_some_iff.1 hcolumn
    exact ⟨_, hchange, ⟨rfl, rfl, rfl, rfl, rfl⟩,
      Dictionary.readsThrough_shiftRhs hbasis h.consistent.rows_agree.size_pos hc hname _⟩

theorem changeCoefficient_readsThrough (h : t.IsSound) (hquiet : t.snapshot = none)
    (hslack : t.dictionary.Mentions slack) (hindex : t.dictionary.Mentions index)
    (hne : slack ≠ index) (isUpperBound : Bool) (difference : Rat)
    (hpivots : ∀ event ∈ t.enteringPivots slack,
      event.before.dictionary.PivotKeeps event.row event.column) :
    Ends (changeCoefficient slack isUpperBound index difference t)
      (fun _ t' => SameFrame t t' ∧ Dictionary.ReadsThrough
        (fun x => Function.update x slack
          (x slack + orientBound isUpperBound difference * x index))
        t.dictionary t'.dictionary)
      (fun _ _ => True) := by
  rcases changeCoefficient_cases Dictionary.PivotKeeps h hquiet hslack hindex hne isUpperBound
    difference hpivots with herror | ⟨r, middle, row, hrun, hrow, hadd, -, hok⟩
  · rw [herror]
    trivial
  · have hmiddle := hrun.2.consistent h.consistent
    obtain ⟨hr, hname⟩ := hmiddle.row?_eq_some_iff.1 hrow
    have hreads := Dictionary.readsThrough_addToRow? hmiddle hr hname hne hadd
    rw [hok]
    exact ⟨hrun.1.trans ⟨rfl, rfl, rfl, rfl, rfl⟩, (hrun.sameMeaning h).readsThrough hreads⟩

theorem changeCost_objectiveAt (h : t.IsSound) (hquiet : t.snapshot = none)
    (hindex : t.dictionary.Mentions index) (priority : Priority) (minimises : Bool)
    (difference : Rat) :
    ∃ t', changeCost index priority minimises difference t = .ok () t' ∧ SameFrame t t' ∧
      ∀ x, (t'.dictionary.Satisfies x ↔ t.dictionary.Satisfies x) ∧
        (t.dictionary.Satisfies x → ∀ other, t'.dictionary.objectiveAt other x =
          t.dictionary.objectiveAt other x - if other.level = priority.level then
            orientCost minimises difference * x index else 0) := by
  have hwidth : 0 < t.dictionary.width := h.consistent.columns_agree.size_pos
  have hmatrix : 0 < t.dictionary.matrix.size := by
    rw [h.consistent.matrix_size]
    exact h.consistent.rows_agree.size_pos
  have hsize (other : Priority) := Dictionary.size_objectiveRow_of_isConsistent h.consistent other
  rcases changeCost_cases hquiet hindex priority minimises difference with
    ⟨c, hcolumn, hchange⟩ | ⟨r, hrow, hchange⟩
  · obtain ⟨hc, hname⟩ := h.consistent.column?_eq_some_iff.1 hcolumn
    refine ⟨_, hchange, ⟨rfl, rfl, rfl, rfl, rfl⟩, ?_⟩
    intro x
    refine ⟨Dictionary.satisfies_modifyObjective .., ?_⟩
    intro _ other
    change (Dictionary.modifyObjective _ _ _).objectiveAt other x = _
    rw [Dictionary.objectiveAt_modifyObjective h.consistent.toIsRanked hmatrix,
      Dictionary.rowValue_addAt (hsize other) hc, Dictionary.IsNamed.nameAt_eq hname]
    split
    · rfl
    · exact (sub_zero _).symm
  · obtain ⟨hr, hname⟩ := h.consistent.row?_eq_some_iff.1 hrow
    refine ⟨_, hchange, ⟨rfl, rfl, rfl, rfl, rfl⟩, ?_⟩
    intro x
    refine ⟨Dictionary.satisfies_modifyObjective .., ?_⟩
    intro hx other
    change (Dictionary.modifyObjective _ _ _).objectiveAt other x = _
    rw [Dictionary.objectiveAt_modifyObjective h.consistent.toIsRanked hmatrix,
      Dictionary.rowValue_subtractMultiple (hsize other) hwidth, ← hx r hr index hname]
    split
    · rfl
    · exact (sub_zero _).symm

/-- A tableau that has lost one variable, and nothing else that is known. -/
structure Forgets (index : Nat) (t t' : Tableau Rat) : Prop where
  precision : t'.precision = t.precision
  snapshot : t'.snapshot = t.snapshot
  lookup_eq : ∀ other, t'.lookup? other = if other = index then none else t.lookup? other

theorem forgets_release {change : Dictionary Rat → Dictionary Rat} (hframe : SameFrame t middle) :
    Forgets index t ((middle.modifyDictionary change).release index) := by
  refine ⟨hframe.precision, hframe.snapshot, ?_⟩
  intro other
  rw [lookup?_release]
  split
  · rfl
  · exact hframe.lookup? other

theorem removeConstraint_opens (h : t.IsSound) (hquiet : t.snapshot = none)
    (hslack : t.dictionary.Mentions slack)
    (hpivots : ∀ event ∈ t.enteringPivots slack,
      event.before.dictionary.PivotKeeps event.row event.column) :
    Ends (removeConstraint slack t)
      (fun _ t' => Forgets slack t t' ∧ ∀ x,
        (t'.dictionary.Satisfies x ↔
          ∃ value, t.dictionary.Satisfies (Function.update x slack value)) ∧
        ∀ value, t.dictionary.Satisfies (Function.update x slack value) → ∀ priority,
          t'.dictionary.objectiveAt priority x =
            t.dictionary.objectiveAt priority (Function.update x slack value))
      (fun _ _ => True) := by
  rcases removeConstraint_cases Dictionary.PivotKeeps h hquiet hslack hpivots with
    herror | ⟨r, middle, hrun, hrow, hok⟩
  · rw [herror]
    trivial
  · have hmiddle := hrun.2.consistent h.consistent
    have hbasis := hmiddle.hasBasis
    have hsame := hrun.sameMeaning h
    obtain ⟨hr, hname⟩ := hmiddle.row?_eq_some_iff.1 hrow
    rw [hok]
    refine ⟨forgets_release hrun.1, ?_⟩
    intro x
    constructor
    · apply (Dictionary.satisfies_dropRow_forget hbasis hr).trans
      rw [Dictionary.satisfiesExcept_iff_exists hbasis.toIsNamed hr hname]
      apply exists_congr
      intro value
      exact hsame.satisfies_iff _
    · intro value hx priority
      have hdrop : ((middle.dictionary.dropRow r).forget slack).objectiveAt priority x =
          middle.dictionary.objectiveAt priority x :=
        Dictionary.objectiveAt_dropRow_forget hbasis hr priority
      apply hdrop.trans
      rw [← Dictionary.objectiveAt_update hbasis.toIsNamed hr hname priority x value]
      exact hsame.objective_eq _ hx priority

theorem removeVariable_readsThrough (h : t.IsSound) (hquiet : t.snapshot = none)
    (hindex : t.dictionary.Mentions index)
    (hpivots : ∀ event ∈ t.leavingPivots index,
      event.before.dictionary.PivotKeeps event.row event.column) :
    Ends (removeVariable index t)
      (fun _ t' => Forgets index t t' ∧
        Dictionary.ReadsThrough (fun x => Function.update x index 0) t.dictionary t'.dictionary)
      (fun _ _ => True) := by
  rcases removeVariable_cases Dictionary.PivotKeeps h hquiet hindex hpivots with
    herror | ⟨c, middle, hrun, hcolumn, hok⟩
  · rw [herror]
    trivial
  · have hmiddle := hrun.2.consistent h.consistent
    obtain ⟨hc, hname⟩ := hmiddle.column?_eq_some_iff.1 hcolumn
    have hreads := Dictionary.readsThrough_dropColumn_forget hmiddle.hasBasis
      hmiddle.rows_agree.size_pos hc hname
    rw [hok]
    exact ⟨forgets_release hrun.1, (hrun.sameMeaning h).readsThrough hreads⟩

end Tableau

end MixedInteger
