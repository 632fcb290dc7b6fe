import MixedInteger.Tableau.Edit

/-!
# Rows and entries under the changes of a dictionary

Every change of a dictionary is described by what becomes of its rows, and every
change of a row by what becomes of its entries.  Reading beyond the end of a row
gives zero, so most of these equations need no bounds.
-/

namespace MixedInteger.Dictionary

variable {α : Type}

/-! ## Removing a position -/

@[simp]
theorem size_swapErase {β : Type} (items : Array β) (position : Nat) :
    (swapErase items position).size = items.size - 1 := by
  unfold swapErase
  cases hlast : items.back? with
  | none => simp_all
  | some last => simp

/-- The last element takes the place of the removed one. -/
theorem getElem?_swapErase {β : Type} (items : Array β) {position : Nat}
    (hposition : position < items.size) (i : Nat) :
    (swapErase items position)[i]? =
      if i + 1 < items.size then
        if i = position then items[items.size - 1]? else items[i]?
      else none := by
  unfold swapErase
  have hlast : items.back? = items[items.size - 1]? := Array.back?_eq_getElem?
  cases hback : items.back? with
  | none => simp_all
  | some last =>
    rw [hback] at hlast
    simp only [Array.getElem?_pop, Array.size_setIfInBounds, Array.getElem?_setIfInBounds]
    by_cases hbound : i + 1 < items.size
    · rw [if_pos (by omega), if_pos hbound]
      by_cases hi : i = position
      · rw [if_pos hi.symm, if_pos hposition, if_pos hi, hlast]
      · rw [if_neg (Ne.symm hi), if_neg hi]
    · rw [if_neg (by omega), if_neg hbound]

theorem join_swapErase {names : Array (Option Nat)} {p : Nat} (hp : p < names.size) (q : Nat) :
    (swapErase names p)[q]?.join =
      if q + 1 < names.size then
        if q = p then names[names.size - 1]?.join else names[q]?.join
      else none := by
  rw [getElem?_swapErase names hp]
  split
  · split <;> rfl
  · rfl

/-! ## Rows of the matrix -/

theorem row_eq (d : Dictionary α) (r : Nat) : d.row r = d.matrix[r]?.getD #[] := by
  rw [row, Array.getD_eq_getD_getElem?]

theorem row_of_matrix_size_le {d : Dictionary α} {r : Nat} (hr : d.matrix.size ≤ r) :
    d.row r = #[] := by
  rw [row_eq, Array.getElem?_eq_none hr]
  rfl

theorem row_modifyRow (d : Dictionary α) (r i : Nat) (change : Array α → Array α) :
    (d.modifyRow r change).row i =
      if r = i ∧ i < d.matrix.size then change (d.row i) else d.row i := by
  rw [row_eq, row_eq, modifyRow]
  simp only [Array.getElem?_modify]
  by_cases hi : r = i
  · by_cases hbound : i < d.matrix.size
    · simp [hi, hbound]
    · simp [hi, hbound]
  · simp [hi]

theorem row_pushRow (d : Dictionary α) (slack : Nat) (new : Array α) (i : Nat) :
    (d.pushRow slack new).row i = if i = d.matrix.size then new else d.row i := by
  rw [row_eq, row_eq, pushRow]
  simp only [Array.getElem?_push]
  by_cases hi : i = d.matrix.size <;> simp [hi]

theorem row_dropRow (d : Dictionary α) {r : Nat} (hr : r < d.matrix.size) (i : Nat) :
    (d.dropRow r).row i =
      if i + 1 < d.matrix.size then
        if i = r then d.row (d.matrix.size - 1) else d.row i
      else #[] := by
  rw [row_eq, dropRow]
  simp only [getElem?_swapErase _ hr, row_eq]
  split
  · split <;> rfl
  · rfl

theorem row_dropColumn (d : Dictionary α) (c : Nat) {i : Nat} (hi : i < d.matrix.size) :
    (d.dropColumn c).row i = swapErase (d.row i) c := by
  rw [row_eq, row_eq, dropColumn]
  simp [hi]

variable [Scalar α]

theorem row_pushColumn (d : Dictionary α) (index : Nat) {i : Nat} (hi : i < d.matrix.size) :
    (d.pushColumn index).row i = (d.row i).push 0 := by
  rw [row_eq, row_eq, pushColumn]
  simp [hi]

/-- The rows after a pivot. -/
theorem row_pivot (d : Dictionary α) (r c : Nat) {i : Nat} (hi : i < d.matrix.size) :
    (d.pivot r c).row i =
      if i = r then normalise (scale (d.row r) (d.entry r c)) c (d.entry r c)
      else eliminate (scale (d.row r) (d.entry r c)) c (d.entry r c) (d.row i) := by
  rw [row_eq, pivot]
  simp only [row_eq d i, Array.getElem?_mapIdx, hi, getElem?_pos, Option.map_some,
    Option.getD_some, beq_iff_eq]

/-! ## Lengths of rows -/

@[simp]
theorem size_scale (row : Array α) (quotient : α) : (scale row quotient).size = row.size := by
  simp [scale]

@[simp]
theorem size_normalise (scaled : Array (Option α)) (column : Nat) (quotient : α) :
    (normalise scaled column quotient).size = scaled.size := by
  simp [normalise]

@[simp]
theorem size_eliminate (scaled : Array (Option α)) (column : Nat) (quotient : α)
    (target : Array α) : (eliminate scaled column quotient target).size = target.size := by
  unfold eliminate
  simp only
  split <;> simp

@[simp]
theorem size_addAt (row : Array α) (column : Nat) (difference : α) :
    (addAt row column difference).size = row.size := by
  simp [addAt]

@[simp]
theorem size_subtractMultiple (target : Array α) (factor : α) (source : Array α) :
    (subtractMultiple target factor source).size = target.size := by
  simp [subtractMultiple]

@[simp]
theorem size_shiftAlong (column : Nat) (difference : α) (row : Array α) :
    (Tableau.shiftAlong column difference row).size = row.size := by
  simp [Tableau.shiftAlong]

/-! ## Entries of rows -/

theorem entryOf_eq (row : Array α) (c : Nat) : entryOf row c = row[c]?.getD 0 := by
  rw [entryOf, Array.getD_eq_getD_getElem?]

theorem entryOf_of_size_le {row : Array α} {c : Nat} (hc : row.size ≤ c) :
    entryOf row c = 0 := by
  rw [entryOf_eq, Array.getElem?_eq_none hc]
  rfl

theorem entryOf_setIfInBounds {row : Array α} {column : Nat} (hcolumn : column < row.size)
    (value : α) (c : Nat) :
    entryOf (row.setIfInBounds column value) c =
      if c = column then value else entryOf row c := by
  rw [entryOf_eq, entryOf_eq, Array.getElem?_setIfInBounds]
  by_cases hc : c = column
  · simp [hc, hcolumn]
  · rw [if_neg (Ne.symm hc), if_neg hc]

theorem entryOf_addAt {row : Array α} {column : Nat} (hcolumn : column < row.size)
    (difference : α) (c : Nat) :
    entryOf (addAt row column difference) c =
      if c = column then entryOf row c + difference else entryOf row c := by
  rw [entryOf_eq, entryOf_eq, addAt, Array.getElem?_modify]
  by_cases hc : c = column
  · simp [hc, hcolumn]
  · rw [if_neg (Ne.symm hc), if_neg hc]

theorem entryOf_subtractMultiple {target : Array α} {c : Nat} (hc : c < target.size)
    (factor : α) (source : Array α) :
    entryOf (subtractMultiple target factor source) c =
      entryOf target c - factor * entryOf source c := by
  rw [entryOf_eq, entryOf_eq target, subtractMultiple, Array.getElem?_mapIdx]
  simp [hc]

theorem entryOf_shiftAlong {row : Array α} (hrow : 0 < row.size) (column : Nat)
    (difference : α) (c : Nat) :
    entryOf (Tableau.shiftAlong column difference row) c =
      if c = 0 then entryOf row 0 + difference * entryOf row column else entryOf row c := by
  rw [Tableau.shiftAlong, entryOf_addAt hrow]
  by_cases hc : c = 0 <;> simp [hc]

theorem entryOf_push (row : Array α) (value : α) (c : Nat) :
    entryOf (row.push value) c = if c = row.size then value else entryOf row c := by
  rw [entryOf_eq, entryOf_eq, Array.getElem?_push]
  by_cases hc : c = row.size <;> simp [hc]

theorem entryOf_replicate_zero (n c : Nat) :
    entryOf (Array.replicate n (0 : α)) c = 0 := by
  rw [entryOf_eq, Array.getElem?_replicate]
  split <;> rfl

theorem entryOf_swapErase {row : Array α} {column : Nat} (hcolumn : column < row.size)
    {c : Nat} (hc : c + 1 < row.size) :
    entryOf (swapErase row column) c =
      if c = column then entryOf row (row.size - 1) else entryOf row c := by
  rw [entryOf_eq, getElem?_swapErase row hcolumn, if_pos hc]
  by_cases hsame : c = column <;> simp [hsame, entryOf_eq]

/-- An entry of the scaled pivot row. -/
theorem getElem?_scale_join (row : Array α) (quotient : α) {c : Nat} (hc : c < row.size) :
    (scale row quotient)[c]?.join =
      if Scalar.pivotZero < Scalar.abs (entryOf row c) then some (entryOf row c / quotient)
      else none := by
  rw [scale, Array.getElem?_map, entryOf_eq]
  simp [hc]

end MixedInteger.Dictionary
