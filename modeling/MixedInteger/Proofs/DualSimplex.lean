import MixedInteger.Proofs.ObjectiveDescent
import MixedInteger.Proofs.SearchNodes

/-!
# Phase one as a dual simplex method

On reduced costs that no variable can improve, phase one is the dual simplex method: it
repairs a violated row through the column with the largest quotient, which keeps the
reduced costs so and never lowers the first objective.  The objective of such a tableau
bounds the cost of all feasible points, so a feasible end of phase one is optimal, what is
left to phase two are the secondary objectives, and a relaxation that is solved again with
further rows never has a smaller objective than before.
-/

namespace MixedInteger

/-! ## The first row after a pivot -/

namespace Dictionary

variable {d : Dictionary Rat} {r c : Nat}

/-- A dictionary with its first objective alone. -/
def primary {α : Type} (d : Dictionary α) : Dictionary α :=
  { d with secondary := [] }

theorem primary_pivot (d : Dictionary Rat) (r c : Nat) :
    (d.pivot r c).primary = d.primary.pivot r c := by
  have hleaving : d.primary.basicAt r = d.basicAt r := rfl
  have hentering : d.primary.nonBasicAt c = d.nonBasicAt c := rfl
  simp only [pivot, exchange, hleaving, hentering]
  cases d.basicAt r <;> cases d.nonBasicAt c <;> rfl

/-- Pivots that keep the meaning apart from the secondary objectives keep it without
them. -/
theorem PivotsTo.primary {final : Dictionary Rat}
    (hrun : PivotsTo (fun d => d.primary.PivotKeeps) d final) :
    PivotsTo PivotKeeps d.primary final.primary := by
  induction hrun with
  | refl d => exact .refl d.primary
  | step hr hc hkeeps _ ih =>
    rw [primary_pivot] at ih
    exact .step hr hc hkeeps ih

theorem entry_of_outside (h : ¬ (r < d.matrix.size ∧ c < (d.row r).size)) : d.entry r c = 0 := by
  by_cases hr : r < d.matrix.size
  · exact entryOf_of_size_le (Nat.le_of_not_lt fun hc => h ⟨hr, hc⟩)
  · rw [entry, row_of_matrix_size_le (Nat.le_of_not_lt hr)]
    exact entryOf_of_size_le (Nat.zero_le c)

theorem entry_zero_pivot (h : d.IsRectangular) (hr : r ∈ d.rows) (hc : c ∈ d.columns)
    (hrow : ∀ e, d.entry r e = 0 ∨ Scalar.pivotZero < Scalar.abs (d.entry r e))
    (hcost : d.entry 0 c = 0 ∨ Scalar.pivotZero < Scalar.abs (d.entry 0 c)) {e : Nat}
    (he : e < d.width) :
    (d.pivot r c).entry 0 e =
      if e = c then -d.entry 0 c / d.entry r c
      else d.entry 0 e - d.entry 0 c * (d.entry r e / d.entry r c) := by
  obtain ⟨hrpos, hrheight⟩ := mem_rows.1 hr
  have hheight : 0 < d.height := Nat.lt_trans hrpos hrheight
  have hsize : (d.row r).size = d.width := h.row_size r hrheight
  have hzero : 0 < d.matrix.size := by
    rw [h.matrix_size]
    exact hheight
  rw [entry, row_pivot d r c hzero, if_neg (Nat.ne_of_lt hrpos)]
  exact entryOf_eliminate ((h.row_size 0 hheight).trans hsize.symm) hrow
    ((mem_columns.1 hc).2.trans_eq hsize.symm) hcost (d.entry r c) (he.trans_eq hsize.symm)

/-- After a pivot a column has its name from before, unless it is the column of the pivot
and has the name of the row. -/
theorem nonBasicAt_pivot_cases (d : Dictionary Rat) (hc : c ∈ d.columns) (e : Nat) :
    (d.pivot r c).nonBasicAt e = d.nonBasicAt e ∨
      e = c ∧ (d.pivot r c).nonBasicAt e = d.basicAt r := by
  have hpivot : (d.pivot r c).nonBasicAt e = (d.exchange r c).nonBasicAt e := rfl
  rw [hpivot]
  cases hleaving : d.basicAt r with
  | none =>
    left
    simp only [exchange, hleaving]
  | some leaving =>
    cases hentering : d.nonBasicAt c with
    | none =>
      left
      simp only [exchange, hleaving, hentering]
    | some entering =>
      rw [nonBasicAt_exchange (mem_columns.1 hc).2 hleaving hentering]
      by_cases hec : e = c
      · exact .inr ⟨hec, if_pos hec⟩
      · exact .inl (if_neg hec)

end Dictionary

namespace Tableau

variable {t t' : Tableau Rat} {r c e : Nat} {x : Nat → Rat} {entering : Entering}

/-! ## Clear entries -/

/-- All entries of the matrix are zero or clearly apart from it. -/
structure HasClearEntries (t : Tableau Rat) : Prop where
  precision_pos : 0 < t.precision
  entry_clear : ∀ r c, t.IsClear (t.dictionary.entry r c)

theorem hasClearEntries_iff :
    t.HasClearEntries ↔ 0 < t.precision ∧ ∀ r < t.dictionary.matrix.size,
      ∀ c < (t.dictionary.row r).size, t.IsClear (t.dictionary.entry r c) := by
  constructor
  · intro h
    exact ⟨h.precision_pos, fun r _ c _ => h.entry_clear r c⟩
  · intro h
    refine ⟨h.1, ?_⟩
    intro r c
    by_cases hinside : r < t.dictionary.matrix.size ∧ c < (t.dictionary.row r).size
    · exact h.2 r hinside.1 c hinside.2
    · exact .inl (Dictionary.entry_of_outside hinside)

instance (t : Tableau Rat) : Decidable t.HasClearEntries :=
  decidable_of_iff _ hasClearEntries_iff.symm

theorem HasClearEntries.entry_zero_pivot (h : t.HasClearEntries)
    (hrectangular : t.dictionary.primary.IsRectangular) (hr : r ∈ t.dictionary.rows)
    (hc : c ∈ t.dictionary.columns) (he : e < t.dictionary.width) :
    (t.pivot r c).dictionary.entry 0 e =
      if e = c then -t.dictionary.entry 0 c / t.dictionary.entry r c
      else t.dictionary.entry 0 e -
        t.dictionary.entry 0 c * (t.dictionary.entry r e / t.dictionary.entry r c) := by
  have hentry := Dictionary.entry_zero_pivot hrectangular hr hc
    (fun e => (h.entry_clear r e).pivot_exact) (h.entry_clear 0 c).pivot_exact he
  rw [← Dictionary.primary_pivot] at hentry
  exact hentry

/-! ## The choice of the column -/

/-- The quotient by which phase one compares the columns. -/
def dualQuotient (t : Tableau Rat) (r c : Nat) : Rat :=
  -t.dictionary.entry 0 c / t.dictionary.entry r c

/-- No column that repairs the row has a larger quotient than the chosen one. -/
theorem dualQuotient_le (h : t.repairingColumn? r = some c) (he : t.Repairs r e) :
    t.dualQuotient r e ≤ t.dualQuotient r c := by
  obtain ⟨mark, hmem, -, hbest⟩ := select_eq_some_best h
    (fun mark => Extended.lt_irrefl mark)
    (fun first second third hfirst hsecond => Extended.lt_trans third second first hsecond hfirst)
  obtain ⟨c', -, heq⟩ := List.mem_map.1 hmem
  obtain ⟨rfl, rfl⟩ := Prod.mk.inj heq
  have hother := hbest _ (List.mem_map.2 ⟨e, mem_filter_repairs_iff.2 he, rfl⟩)
  have hle : ¬ t.dualQuotient r c' < t.dualQuotient r e := of_decide_eq_false hother
  exact not_lt.1 hle

/-! ## Reduced costs that nothing improves -/

/-- The first objective cannot be improved: its reduced costs are at most zero, and zero
where the variable of the column is free. -/
def IsDualFeasible (t : Tableau Rat) : Prop :=
  ∀ c ∈ t.dictionary.columns, t.dictionary.entry 0 c ≤ 0 ∧
    (t.isFree (t.dictionary.nonBasicAt c) = true → t.dictionary.entry 0 c = 0)

instance (t : Tableau Rat) : Decidable t.IsDualFeasible :=
  inferInstanceAs (Decidable (∀ c ∈ t.dictionary.columns, _))

namespace IsDualFeasible

/-- Free variables may become restricted, and the numbers of the first row are all that
counts. -/
theorem of_row (h : t.IsDualFeasible) (hrow : t'.dictionary.row 0 = t.dictionary.row 0)
    (hnonBasic : t'.dictionary.nonBasic = t.dictionary.nonBasic)
    (hfree : ∀ index, t'.isFree index = true → t.isFree index = true) : t'.IsDualFeasible := by
  intro c hc
  rw [Dictionary.mem_columns, Dictionary.width, hnonBasic] at hc
  obtain ⟨hcost, hzero⟩ := h c (Dictionary.mem_columns.2 hc)
  have hentry : t'.dictionary.entry 0 c = t.dictionary.entry 0 c := by
    rw [Dictionary.entry, hrow]
    rfl
  have hname : t'.dictionary.nonBasicAt c = t.dictionary.nonBasicAt c := by
    rw [Dictionary.nonBasicAt, hnonBasic]
    rfl
  rw [hentry, hname]
  exact ⟨hcost, fun hindex => hzero (hfree _ hindex)⟩

theorem of_choosesAlike (halike : ChoosesAlike t t') (h : t.IsDualFeasible) :
    t'.IsDualFeasible := by
  apply h.of_row
  · rw [halike.dictionary]
  · rw [halike.dictionary]
  · intro index hindex
    rw [← halike.isFree]
    exact hindex

/-- A pivot on a restricted row keeps the reduced costs so if it does that to their
numbers. -/
theorem pivot_of_entries (hc : c ∈ t.dictionary.columns)
    (hrow : t.isFree (t.dictionary.basicAt r) = false)
    (hentries : ∀ e ∈ t.dictionary.columns, (t.pivot r c).dictionary.entry 0 e ≤ 0 ∧
      (t.isFree (t.dictionary.nonBasicAt e) = true →
        (t.pivot r c).dictionary.entry 0 e = 0)) :
    (t.pivot r c).IsDualFeasible := by
  intro e he
  have he' : e ∈ t.dictionary.columns := by
    have hwidth := Dictionary.width_pivot t.dictionary r c
    rw [Dictionary.mem_columns] at he ⊢
    change 0 < e ∧ e < (t.dictionary.pivot r c).width at he
    rw [hwidth] at he
    exact he
  obtain ⟨hcost, hzero⟩ := hentries e he'
  refine ⟨hcost, ?_⟩
  intro hfree
  change t.isFree ((t.dictionary.pivot r c).nonBasicAt e) = true at hfree
  rcases Dictionary.nonBasicAt_pivot_cases t.dictionary hc e with hname | ⟨-, hname⟩
  · rw [hname] at hfree
    exact hzero hfree
  · rw [hname, hrow] at hfree
    exact absurd hfree (by simp)

/-! ### Phase one -/

theorem dualQuotient_nonpos (h : t.IsDualFeasible) (hrepairs : t.Repairs r c) :
    t.dualQuotient r c ≤ 0 := by
  obtain ⟨hcost, hzero⟩ := h c hrepairs.mem_columns
  rcases hrepairs.direction with hnegative | hfree
  · exact div_nonpos_of_nonneg_of_nonpos (neg_nonneg.2 hcost) (le_of_lt hnegative)
  · rw [dualQuotient, hzero hfree, neg_zero, zero_div]

/-- A column that is not the one of the pivot keeps its reduced cost in order, because no
quotient is larger than the chosen one. -/
theorem reducedCost_pivot (h : t.IsDualFeasible) (hclear : t.HasClearEntries)
    (hcolumn : t.repairingColumn? r = some c) (he : e ∈ t.dictionary.columns) :
    t.dictionary.entry 0 e + t.dualQuotient r c * t.dictionary.entry r e ≤ 0 ∧
      (t.isFree (t.dictionary.nonBasicAt e) = true →
        t.dictionary.entry 0 e + t.dualQuotient r c * t.dictionary.entry r e = 0) := by
  obtain ⟨hcost, hzero⟩ := h e he
  have hquotient := h.dualQuotient_nonpos (of_repairingColumn? hcolumn)
  rcases hclear.entry_clear r e with hentry | ⟨hlarge, -⟩
  · rw [hentry, mul_zero, add_zero]
    exact ⟨hcost, hzero⟩
  cases hfree : t.isFree (t.dictionary.nonBasicAt e) with
  | true =>
    -- A free column with an entry in the row has quotient zero, so the largest one is zero.
    have hle := dualQuotient_le hcolumn ⟨he, hlarge, .inr hfree⟩
    rw [dualQuotient, hzero hfree, neg_zero, zero_div] at hle
    rw [le_antisymm hquotient hle, zero_mul, add_zero, hzero hfree]
    exact ⟨le_refl 0, fun _ => rfl⟩
  | false =>
    refine ⟨?_, fun hcontra => absurd hcontra (by simp)⟩
    rcases lt_or_ge (t.dictionary.entry r e) 0 with hnegative | hpositive
    · have hle := dualQuotient_le hcolumn ⟨he, hlarge, .inl hnegative⟩
      have hscaled := mul_le_mul_of_nonpos_right hle (le_of_lt hnegative)
      have hown : t.dualQuotient r e * t.dictionary.entry r e = -t.dictionary.entry 0 e :=
        div_mul_cancel₀ _ (ne_of_lt hnegative)
      linarith
    · have hshift := mul_nonpos_of_nonpos_of_nonneg hquotient hpositive
      linarith

/-- The reduced costs and the objective after a pivot, through the quotient. -/
theorem entry_zero_eq (hclear : t.HasClearEntries)
    (hrectangular : t.dictionary.primary.IsRectangular) (hr : r ∈ t.dictionary.rows)
    (hc : c ∈ t.dictionary.columns) (he : e < t.dictionary.width) (hne : e ≠ c) :
    (t.pivot r c).dictionary.entry 0 e =
      t.dictionary.entry 0 e + t.dualQuotient r c * t.dictionary.entry r e := by
  rw [hclear.entry_zero_pivot hrectangular hr hc he, if_neg hne, dualQuotient]
  ring

/-- A pivot of phase one keeps the reduced costs and does not lower the objective. -/
theorem phaseOne_pivot (h : t.IsDualFeasible) (hclear : t.HasClearEntries)
    (hrectangular : t.dictionary.primary.IsRectangular) (hstep : t.phaseOneStep = .pivot r c) :
    (t.pivot r c).IsDualFeasible ∧
      t.dictionary.entry 0 0 ≤ (t.pivot r c).dictionary.entry 0 0 := by
  obtain ⟨hviolated, hcolumn⟩ := phaseOneStep_eq_pivot_iff.1 hstep
  obtain ⟨⟨hr, hrestricted⟩, hnegative⟩ := of_violatedRow? hviolated
  have hrepairs := of_repairingColumn? hcolumn
  have hc := hrepairs.mem_columns
  have hquotient := h.dualQuotient_nonpos hrepairs
  obtain ⟨hcpos, hcwidth⟩ := Dictionary.mem_columns.1 hc
  constructor
  · apply pivot_of_entries hc hrestricted
    intro e he
    by_cases hec : e = c
    · have hentry : (t.pivot r c).dictionary.entry 0 e = t.dualQuotient r c := by
        rw [hec, hclear.entry_zero_pivot hrectangular hr hc hcwidth, if_pos rfl]
        rfl
      rw [hentry, hec]
      refine ⟨hquotient, ?_⟩
      intro hfree
      rw [dualQuotient, (h c hc).2 hfree, neg_zero, zero_div]
    · rw [entry_zero_eq hclear hrectangular hr hc (Dictionary.mem_columns.1 he).2 hec]
      exact h.reducedCost_pivot hclear hcolumn he
  · rw [entry_zero_eq hclear hrectangular hr hc (Nat.lt_trans hcpos hcwidth)
      (Nat.ne_of_lt hcpos)]
    have hrhs : t.dictionary.entry r 0 ≤ 0 := by
      have hprecision := hclear.precision_pos
      linarith
    exact le_add_of_nonneg_right (mul_nonneg_of_nonpos_of_nonpos hquotient hrhs)

/-! ### Phase two -/

/-- The first objective promises nothing, so a later one chooses. -/
theorem exists_choosing? (h : t.IsDualFeasible) (hprecision : 0 < t.precision)
    (hentering : t.entering? = some entering) :
    ∃ position, t.rankedAmong? t.dictionary.columns t.dictionary.objectives =
      some (position + 1, entering) := by
  have hnone : t.mostPromising? (t.dictionary.row 0) t.dictionary.columns = none := by
    rw [mostPromising?_eq_none_iff]
    intro c hc
    obtain ⟨hcost, hzero⟩ := h c hc
    exact ⟨hcost.trans (le_of_lt hprecision), fun hfree => .inr (le_of_eq (hzero hfree).symm)⟩
  have hranked := map_rankedAmong? t t.dictionary.columns t.dictionary.objectives
  change _ = t.entering? at hranked
  rw [hentering] at hranked
  obtain ⟨⟨position, found⟩, hfound, rfl⟩ := Option.map_eq_some_iff.1 hranked
  have hlower := hfound
  rw [Dictionary.objectives, rankedAmong?, hnone] at hlower
  obtain ⟨later, -, heq⟩ := Option.map_eq_some_iff.1 hlower
  rw [← (Prod.mk.inj heq).1] at hfound
  exact ⟨later.1, hfound⟩

/-- A pivot of phase two keeps the reduced costs and the objective. -/
theorem phaseTwo_pivot (h : t.IsDualFeasible) (hclear : t.HasClearEntries)
    (hrectangular : t.dictionary.primary.IsRectangular) (hstep : t.phaseTwoStep = .pivot r c) :
    (t.pivot r c).IsDualFeasible ∧
      (t.pivot r c).dictionary.entry 0 0 = t.dictionary.entry 0 0 := by
  obtain ⟨entering, hentering, rfl, hleaving⟩ := phaseTwoStep_eq_pivot_iff.1 hstep
  obtain ⟨position, hranked⟩ := h.exists_choosing? hclear.precision_pos hentering
  have hr := mem_rows_of_leavingRow? hleaving
  have hc := mem_columns_of_entering? hentering
  obtain ⟨hcpos, hcwidth⟩ := Dictionary.mem_columns.1 hc
  have hcost : t.dictionary.entry 0 entering.column = 0 :=
    entryOf_eq_zero_of_rankedAmong? hranked List.mem_cons_self (hclear.entry_clear 0)
  have hsame {e : Nat} (he : e < t.dictionary.width) :
      (t.pivot r entering.column).dictionary.entry 0 e = t.dictionary.entry 0 e := by
    rw [hclear.entry_zero_pivot hrectangular hr hc he, hcost, neg_zero, zero_div, zero_mul,
      sub_zero]
    split
    · next hec => rw [hec, hcost]
    · rfl
  constructor
  · apply pivot_of_entries hc (of_leavingRow? hleaving).1.1.2
    intro e he
    rw [hsame (Dictionary.mem_columns.1 he).2]
    exact h e he
  · exact hsame (Nat.lt_trans hcpos hcwidth)

end IsDualFeasible

/-- A tableau with rows of the full width whose first objective cannot be improved. -/
structure IsDual (t : Tableau Rat) : Prop where
  rectangular : t.dictionary.primary.IsRectangular
  feasible : t.IsDualFeasible

namespace IsDual

theorem of_choosesAlike (halike : ChoosesAlike t t') (h : t.IsDual) : t'.IsDual := by
  refine ⟨?_, h.feasible.of_choosesAlike halike⟩
  rw [halike.dictionary]
  exact h.rectangular

theorem rectangular_pivot (h : t.IsDual) (hr : r ∈ t.dictionary.rows) :
    (t.pivot r c).dictionary.primary.IsRectangular := by
  have hprimary : (t.pivot r c).dictionary.primary = t.dictionary.primary.pivot r c :=
    Dictionary.primary_pivot t.dictionary r c
  rw [hprimary]
  exact h.rectangular.pivot hr

/-- Phase one keeps the reduced costs, and no pivot of it lowers the objective. -/
theorem phaseOne {effort : Effort} (h : t.IsDual)
    (hclear : ∀ event ∈ phasePivots .one effort.pivots .empty t,
      event.before.HasClearEntries) :
    (∀ event ∈ phasePivots .one effort.pivots .empty t, event.after.IsDual ∧
      event.before.dictionary.entry 0 0 ≤ event.after.dictionary.entry 0 0) ∧
      (finalState (runPhase .one effort t)).IsDual := by
  have hstep : ∀ event ∈ phasePivots .one effort.pivots .empty t, event.before.IsDual →
      event.after.IsDual ∧
        event.before.dictionary.entry 0 0 ≤ event.after.dictionary.entry 0 0 := by
    intro event hevent hbefore
    have hpivot := (mem_phaseOnePivots hevent).1
    obtain ⟨hfeasible, hvalue⟩ :=
      hbefore.feasible.phaseOne_pivot (hclear event hevent) hbefore.rectangular hpivot
    have hr := mem_rows_of_violatedRow? (phaseOneStep_eq_pivot_iff.1 hpivot).1
    exact ⟨⟨hbefore.rectangular_pivot hr, hfeasible⟩, hvalue⟩
  obtain ⟨hbefore, hfinal⟩ := phaseLoop_kept IsDual (fun halike => of_choosesAlike halike)
    (fun event hevent hdual => (hstep event hevent hdual).1) h
  rw [runPhase_eq]
  exact ⟨fun event hevent => hstep event hevent (hbefore event hevent), hfinal⟩

/-- Phase two keeps the reduced costs and the objective, and lets the secondary objectives
choose. -/
theorem phaseTwo {effort : Effort} (h : t.IsDual)
    (hclear : ∀ event ∈ phasePivots .two effort.pivots .empty t,
      event.before.HasClearEntries) :
    (∀ event ∈ phasePivots .two effort.pivots .empty t,
      ∃ position, event.before.choosing? = some (position + 1)) ∧
      (finalState (runPhase .two effort t)).IsDual ∧
      (finalState (runPhase .two effort t)).dictionary.entry 0 0 = t.dictionary.entry 0 0 := by
  have hstep : ∀ event ∈ phasePivots .two effort.pivots .empty t,
      event.before.IsDual ∧
        event.before.dictionary.entry 0 0 = t.dictionary.entry 0 0 →
      event.after.IsDual ∧
        event.after.dictionary.entry 0 0 = t.dictionary.entry 0 0 := by
    rintro event hevent ⟨hbefore, hvalue⟩
    have hpivot := (mem_phaseTwoPivots hevent).1
    obtain ⟨hfeasible, hsame⟩ :=
      hbefore.feasible.phaseTwo_pivot (hclear event hevent) hbefore.rectangular hpivot
    obtain ⟨entering, -, -, hleaving⟩ := phaseTwoStep_eq_pivot_iff.1 hpivot
    exact ⟨⟨hbefore.rectangular_pivot (mem_rows_of_leavingRow? hleaving), hfeasible⟩,
      hsame.trans hvalue⟩
  obtain ⟨hbefore, hfinal⟩ := phaseLoop_kept
    (fun s => s.IsDual ∧ s.dictionary.entry 0 0 = t.dictionary.entry 0 0)
    (fun halike hs => ⟨hs.1.of_choosesAlike halike, by rw [halike.dictionary]; exact hs.2⟩)
    hstep ⟨h, rfl⟩
  rw [runPhase_eq]
  refine ⟨?_, hfinal⟩
  intro event hevent
  obtain ⟨entering, hentering, -, -⟩ :=
    phaseTwoStep_eq_pivot_iff.1 (mem_phaseTwoPivots hevent).1
  obtain ⟨position, hranked⟩ := (hbefore event hevent).1.feasible.exists_choosing?
    (hclear event hevent).precision_pos hentering
  exact ⟨position, by rw [choosing?, hranked]; rfl⟩

end IsDual

/-! ## The cost of feasible points -/

/-- The objective of a tableau whose first objective cannot be improved bounds the cost of
all points that respect the restrictions. -/
theorem IsDualFeasible.entry_le_cost (h : t.IsDualFeasible) (hnamed : t.dictionary.IsNamed)
    (hx : t.Admits x) : t.dictionary.entry 0 0 ≤ t.cost x := by
  have hterms : ∑ c ∈ Finset.Ico 1 t.dictionary.width,
      Dictionary.entryOf (t.dictionary.row 0) c * x (t.dictionary.nameAt c) ≤ 0 := by
    apply Finset.sum_nonpos
    intro c hc
    have hc' := Dictionary.mem_columns_iff_mem_Ico.2 hc
    obtain ⟨hcost, hzero⟩ := h c hc'
    cases hfree : t.isFree (t.dictionary.nonBasicAt c) with
    | true =>
      have hentry : Dictionary.entryOf (t.dictionary.row 0) c = 0 := hzero hfree
      rw [hentry, zero_mul]
    | false =>
      exact mul_nonpos_of_nonpos_of_nonneg hcost (((admits_iff hnamed).1 hx).2 c hc' hfree)
  calc t.dictionary.entry 0 0
      ≤ t.dictionary.entry 0 0 - ∑ c ∈ Finset.Ico 1 t.dictionary.width,
          Dictionary.entryOf (t.dictionary.row 0) c * x (t.dictionary.nameAt c) :=
        le_sub_self_iff _ |>.2 hterms
    _ = t.cost x := rfl

theorem hasBasis_primary (hvalidate : t.validate = .ok ()) : t.dictionary.primary.HasBasis := by
  obtain ⟨hsize, hrows, hnamed, -⟩ := (validate_eq_ok_iff t).1 hvalidate
  exact ⟨⟨hsize, hrows, fun objective hobjective => absurd hobjective List.not_mem_nil⟩,
    hnamed.basic_placed, hnamed.nonBasic_placed⟩

/-- Phase one leads from a tableau to one with the same feasible points and costs. -/
structure SameCosts (t t' : Tableau Rat) : Prop where
  isNamed : t'.dictionary.IsNamed
  isFeasiblePoint_iff : ∀ x, t'.IsFeasiblePoint x ↔ t.IsFeasiblePoint x
  cost_eq : ∀ x, t.IsFeasiblePoint x → t'.cost x = t.cost x

theorem sameCosts_phaseOne {effort : Effort} (hvalidate : t.validate = .ok ())
    (hclear : ∀ event ∈ phasePivots .one effort.pivots .empty t,
      event.before.HasClearEntries) :
    SameCosts t (finalState (runPhase .one effort t)) := by
  have hkeeps : ∀ event ∈ phaseOnePivots effort.pivots .empty t,
      event.before.dictionary.primary.PivotKeeps event.row event.column := by
    intro event hevent
    have hbefore := hclear event hevent
    have hrepairs := of_repairingColumn?
      (phaseOneStep_eq_pivot_iff.1 (mem_phaseOnePivots hevent).1).2
    refine ⟨⟨fun e => (hbefore.entry_clear event.row e).pivot_exact,
      fun i => (hbefore.entry_clear i event.column).pivot_exact,
      fun objective hobjective => absurd hobjective List.not_mem_nil⟩, ?_⟩
    exact abs_pos.1 (hbefore.precision_pos.trans hrepairs.entry_large)
  obtain ⟨hframe, hrun⟩ := phaseOneLoop_pivotsTo (fun d => d.primary.PivotKeeps) effort.pivots
    .empty t hkeeps
  have hbasis := hasBasis_primary hvalidate
  have hprogram := hrun.primary.sameProgram hbasis
  have hnamed := (hrun.primary.hasBasis hbasis).toIsNamed
  change SameCosts t (finalState (phaseOneLoop effort.pivots .empty t))
  refine ⟨⟨hnamed.basic_placed, hnamed.nonBasic_placed⟩, ?_, ?_⟩
  · intro x
    apply and_congr (hprogram.satisfies_iff x)
    apply forall_congr'
    intro index
    exact imp_congr (hprogram.hasVariable_iff index) (by rw [hframe.isFree])
  · intro x hx
    have hvector := hprogram.objectiveVector_eq x hx.1
    exact (List.cons.inj hvector).1

/-- A feasible end of phase one is optimal for the first objective. -/
theorem IsDual.optimal {effort : Effort} (h : t.IsDual) (hvalidate : t.validate = .ok ())
    (hpivots : ∀ event ∈ phasePivots .one effort.pivots .empty t,
      event.before.HasClearEntries)
    (hok : runPhase .one effort t = .ok () t') (hfeasible : t'.isFeasible = true)
    (hclear : t'.HasClearEntries) :
    t.IsFeasiblePoint t'.dictionary.valueOf ∧
      t.cost t'.dictionary.valueOf = t'.dictionary.entry 0 0 ∧
      ∀ x, t.IsFeasiblePoint x → t'.dictionary.entry 0 0 ≤ t.cost x := by
  have hcosts := sameCosts_phaseOne hvalidate hpivots
  have hdual := (h.phaseOne hpivots).2
  rw [hok] at hcosts hdual
  change SameCosts t t' at hcosts
  change t'.IsDual at hdual
  have hviolated : t'.violatedRow? = none := by
    obtain ⟨last, -, hend⟩ := phaseOneLoop_eq_ok (fun _ => True) (fun _ _ _ => trivial) hok trivial
    rcases hend with ⟨hstep, rfl⟩ | ⟨-, rfl⟩
    · exact phaseOneStep_eq_feasible_iff.1 hstep
    · exact absurd hfeasible (by simp)
  have hbasis : t'.HasFeasibleBasis := by
    intro r hr
    exact (hclear.entry_clear r 0).nonneg_of_le (violatedRow?_eq_none_iff.1 hviolated r hr)
  have hpoint : t.IsFeasiblePoint t'.dictionary.valueOf :=
    (hcosts.isFeasiblePoint_iff _).1
      ⟨Dictionary.satisfies_valueOf hcosts.isNamed, admits_valueOf hcosts.isNamed hbasis⟩
  refine ⟨hpoint, ?_, ?_⟩
  · rw [← hcosts.cost_eq _ hpoint, cost_valueOf hcosts.isNamed]
  · intro x hx
    rw [← hcosts.cost_eq x hx]
    exact hdual.feasible.entry_le_cost hcosts.isNamed ((hcosts.isFeasiblePoint_iff x).2 hx).2

/-! ## Relaxations that are solved again -/

theorem isFree_of_pushCutRow (row : Array Rat) {index : Option Nat}
    (h : (t.pushCutRow row).isFree index = true) : t.isFree index = true := by
  cases index with
  | none => exact h
  | some index =>
    rw [isFree_pushCutRow] at h
    split at h
    · exact absurd h (by simp)
    · exact h

theorem size_of_addToRow? {d : Dictionary Rat} {index : Nat} {coefficient : Rat}
    {row row' : Array Rat} (h : addToRow? d index coefficient row = some row') :
    row'.size = row.size := by
  unfold addToRow? at h
  cases hcolumn : d.column? index with
  | some c =>
    rw [hcolumn] at h
    rw [← Option.some.inj h]
    exact Dictionary.size_addAt ..
  | none =>
    rw [hcolumn] at h
    obtain ⟨r, -, rfl⟩ := Option.map_eq_some_iff.1 h
    exact Dictionary.size_subtractMultiple ..

theorem size_of_addTerms {d : Dictionary Rat} {sign : Rat} {terms : List (Term Rat)}
    {row row' : Array Rat} (h : addTerms d sign terms row = .ok row') :
    row'.size = row.size := by
  induction terms generalizing row with
  | nil =>
    injection h with hrow
    rw [hrow]
  | cons term rest ih =>
    rw [addTerms] at h
    cases hterm : addToRow? d term.index (sign * term.coefficient) row with
    | none =>
      rw [hterm] at h
      exact absurd h (by simp)
    | some middle =>
      rw [hterm] at h
      exact (ih h).trans (size_of_addToRow? hterm)

/-- A tableau whose first objective cannot be improved and is at least some value. -/
structure StaysAbove (value : Rat) (t : Tableau Rat) : Prop where
  dual : t.IsDual
  height_pos : 0 < t.dictionary.height
  value_le : value ≤ t.dictionary.entry 0 0

namespace StaysAbove

variable {value : Rat} {effort : Effort}

theorem of_choosesAlike (halike : ChoosesAlike t t') (h : StaysAbove value t) :
    StaysAbove value t' := by
  refine ⟨h.dual.of_choosesAlike halike, ?_, ?_⟩
  · rw [halike.dictionary]
    exact h.height_pos
  · rw [halike.dictionary]
    exact h.value_le

theorem phaseOne (h : StaysAbove value t)
    (hclear : ∀ event ∈ phasePivots .one effort.pivots .empty t,
      event.before.HasClearEntries) :
    StaysAbove value (finalState (runPhase .one effort t)) := by
  have hstep : ∀ event ∈ phasePivots .one effort.pivots .empty t,
      StaysAbove value event.before → StaysAbove value event.after := by
    intro event hevent hbefore
    obtain ⟨hdual, hvalue⟩ := (h.dual.phaseOne hclear).1 event hevent
    refine ⟨hdual, ?_, hbefore.value_le.trans hvalue⟩
    exact hbefore.height_pos.trans_eq (Dictionary.height_pivot _ _ _).symm
  rw [runPhase_eq]
  exact (phaseLoop_kept (StaysAbove value) (fun halike => of_choosesAlike halike) hstep h).2

theorem phaseTwo (h : StaysAbove value t)
    (hclear : ∀ event ∈ phasePivots .two effort.pivots .empty t,
      event.before.HasClearEntries) :
    StaysAbove value (finalState (runPhase .two effort t)) := by
  obtain ⟨-, hdual, hvalue⟩ := h.dual.phaseTwo hclear
  have hheight := (phaseTwoLoop_pivotsTo (fun _ _ _ => True) effort.pivots .empty t
    fun _ _ => trivial).2.height_eq
  exact ⟨hdual, h.height_pos.trans_eq hheight.symm, h.value_le.trans_eq hvalue.symm⟩

/-- A run of the simplex method does not lower the objective. -/
theorem simplex (h : StaysAbove value t)
    (hvisited : ∀ seen ∈ simplexTableaus effort t, seen.HasClearEntries) :
    StaysAbove value (finalState (Tableau.simplex effort t)) := by
  have hpivots : ∀ event ∈ simplexPivots effort t, event.before.HasClearEntries :=
    List.forall_mem_map.1 (List.forall_mem_append.1 hvisited).1
  obtain ⟨hone, htwo⟩ := List.forall_mem_append.1 hpivots
  have hcleared : StaysAbove value t.cleared :=
    of_choosesAlike (t := t) ⟨rfl, rfl, fun _ => rfl⟩ h
  have hfirst : StaysAbove value (finalState (Tableau.phaseOne effort t.cleared)) :=
    hcleared.phaseOne hone
  rw [simplex_eq]
  cases hphase : Tableau.phaseOne effort t.cleared with
  | error fault start =>
    rw [hphase] at hfirst
    exact hfirst
  | ok result start =>
    rw [hphase] at hfirst htwo
    simp only at htwo ⊢
    split
    · next hfeasible =>
      rw [if_pos hfeasible] at htwo
      exact phaseTwo (t := start) hfirst htwo
    · exact hfirst

/-- A new row leaves the first row and its columns alone. -/
theorem pushCutRow (h : StaysAbove value t) {row : Array Rat}
    (hrow : row.size = t.dictionary.width) : StaysAbove value (t.pushCutRow row) := by
  have hzero : (t.pushCutRow row).dictionary.row 0 = t.dictionary.row 0 := by
    have hmatrix : 0 ≠ t.dictionary.matrix.size :=
      Nat.ne_of_lt (h.height_pos.trans_eq h.dual.rectangular.matrix_size.symm)
    exact (Dictionary.row_pushRow t.dictionary t.pool.allocate.1 row 0).trans (if_neg hmatrix)
  refine ⟨⟨h.dual.rectangular.pushRow _ hrow, ?_⟩, ?_, ?_⟩
  · exact h.dual.feasible.of_row hzero rfl fun _ => isFree_of_pushCutRow row
  · rw [height_pushCutRow]
    exact Nat.succ_pos _
  · rw [Dictionary.entry, hzero]
    exact h.value_le

/-- A cut that is refused has only taken an index. -/
theorem registerSlack (h : StaysAbove value t) : StaysAbove value t.registerSlack.2 :=
  ⟨⟨h.dual.rectangular, h.dual.feasible.of_row rfl rfl fun _ => isFree_of_pushCutRow #[]⟩,
    h.height_pos, h.value_le⟩

theorem addCuts (h : StaysAbove value t) (cuts : List (Cut Rat)) :
    Ends (Tableau.addCuts cuts t) (fun _ => StaysAbove value) fun _ => StaysAbove value := by
  apply Ends.forM _ _ _ _ _ _ h
  intro cut _ t ht
  rw [addCut_run]
  cases hrow : addTerms t.dictionary (boundSign (cut.kind == .atMost)) [⟨cut.index, 1⟩]
      ((Array.replicate t.dictionary.width 0).setIfInBounds 0
        (boundSign (cut.kind == .atMost) * cut.value)) with
  | error fault => exact ht.registerSlack
  | ok row =>
    apply ht.pushCutRow
    rw [size_of_addTerms hrow, Array.size_setIfInBounds, Array.size_replicate]

theorem addRoundingCuts (h : StaysAbove value t) (integers : List Nat) :
    StaysAbove value (t.addRoundingCuts integers).1 :=
  addRoundingCuts_kept (StaysAbove value) (fun _ _ ht hrow => ht.pushCutRow hrow)
    (fun _ ht => ht.dual.rectangular.row_size) h integers

theorem roundingRounds (h : StaysAbove value t) {integers : List Nat} {rounds : Nat}
    (hvisited : ∀ seen ∈ roundingTableaus effort integers rounds t, seen.HasClearEntries) :
    StaysAbove value (finalState (Tableau.roundingRounds effort integers rounds t)) := by
  apply roundingRounds_kept (StaysAbove value) _ h
  intro source hsource hadded hkept
  apply (hkept.addRoundingCuts integers).simplex
  intro seen hseen
  apply hvisited seen (List.mem_flatMap.2 ⟨source, hsource, ?_⟩)
  rw [if_neg hadded]
  exact hseen

/-- Solving a branch of a relaxation does not lower the objective below that of the
relaxation. -/
theorem solveBranch (h : StaysAbove value t.restore) {space : SearchSpace Rat}
    {cuts : List (Cut Rat)}
    (hvisited : ∀ seen ∈ branchTableaus space effort cuts t, seen.HasClearEntries) :
    StaysAbove value (finalState (Tableau.solveBranch space effort cuts t)) := by
  have hcuts := h.addCuts cuts
  cases hadd : Tableau.addCuts cuts t.restore with
  | error fault t' =>
    rw [hadd] at hcuts
    rw [solveBranch_of_error hadd]
    exact hcuts
  | ok result t' =>
    rw [hadd] at hcuts
    rw [branchTableaus, hadd] at hvisited
    obtain ⟨hfirst, hrounds⟩ := List.forall_mem_append.1 hvisited
    apply Ends.finalState
    apply solveBranch_ends (StaysAbove value) _ effort hadd
    · exact Ends.of_finalState (hcuts.simplex hfirst)
    · intro hrounding t'' hok hkept
      rw [hok] at hrounds
      simp only [hrounding, if_true] at hrounds
      exact Ends.of_finalState (hkept.roundingRounds hrounds)

end StaysAbove

/-! ### The relaxation that is solved first -/

/-- Where nothing enters, the first objective cannot be improved. -/
theorem isDualFeasible_of_optimal (hclear : t.HasClearEntries)
    (hstep : t.phaseTwoStep = .optimal) : t.IsDualFeasible := by
  have hentering : t.enteringAmong? t.dictionary.columns t.dictionary.objectives = none :=
    phaseTwoStep_eq_optimal_iff.1 hstep
  have hnone : t.mostPromising? (t.dictionary.row 0) t.dictionary.columns = none := by
    rw [Dictionary.objectives, enteringAmong?] at hentering
    cases hmost : t.mostPromising? (t.dictionary.row 0) t.dictionary.columns with
    | none => rfl
    | some found =>
      rw [hmost] at hentering
      exact absurd hentering (by simp)
  intro c hc
  obtain ⟨hupper, hlower⟩ := mostPromising?_eq_none_iff.1 hnone c hc
  have hnonpos := (hclear.entry_clear 0 c).nonpos_of_le hupper
  refine ⟨hnonpos, ?_⟩
  intro hfree
  rcases hlower hfree with hlow | hlow
  · exact le_antisymm hnonpos ((hclear.entry_clear 0 c).nonneg_of_le hlow)
  · exact le_antisymm hnonpos hlow

/-- A verdict that there is an optimum is the one of the tableau itself. -/
def ShowsOptimum (t : Tableau Rat) : Prop :=
  t.isFeasible = true → t.isBounded = true → t.phaseTwoStep = .optimal

theorem simplex_showsOptimum {effort : Effort} (hok : simplex effort t = .ok () t') :
    t'.ShowsOptimum := by
  intro hfeasible hbounded
  rcases simplex_eq_ok hok with ⟨last, -, rfl⟩ | ⟨last, start, -, -, -, -, htwo, -⟩
  · exact absurd hfeasible (by simp)
  · obtain ⟨stop, -, hend⟩ := phaseTwoLoop_eq_ok (fun _ => True) (fun _ _ _ => trivial) htwo
      trivial
    rcases hend with ⟨hstep, rfl⟩ | ⟨column, -, rfl⟩
    · have hframe : SameFrame stop stop.recordOptimum := ⟨rfl, rfl, rfl, rfl, rfl⟩
      exact (hframe.phaseTwoStep rfl).trans hstep
    · exact absurd hbounded (by simp [recordUnbounded])

theorem solveBranch_showsOptimum {space : SearchSpace Rat} {effort : Effort} {cuts : List (Cut Rat)}
    (hok : solveBranch space effort cuts t = .ok () t') : t'.ShowsOptimum := by
  have hsimplex (s : Tableau Rat) :
      Ends (simplex effort s) (fun _ => ShowsOptimum) fun _ _ => True := by
    cases houtcome : simplex effort s with
    | error fault s' => trivial
    | ok result s' => exact simplex_showsOptimum houtcome
  cases hadd : addCuts cuts t.restore with
  | error fault start =>
    rw [solveBranch_of_error hadd] at hok
    exact absurd hok (by simp)
  | ok result start =>
    have hends : Ends (solveBranch space effort cuts t) (fun _ => ShowsOptimum)
        fun _ _ => True := by
      apply solveBranch_ends ShowsOptimum _ effort hadd (hsimplex start)
      intro _ t'' _ hshows
      exact roundingRounds_ends ShowsOptimum _ (fun _ _ => trivial)
        (fun source _ _ _ => hsimplex _) hshows
    exact hends.of_ok hok

/-- The relaxation that a search returns to is one whose first objective cannot be
improved. -/
theorem ReturnsTo.staysAbove {root later : Tableau Rat} (h : ReturnsTo root later)
    (hvalidate : root.validate = .ok ()) (hheight : 0 < root.dictionary.height)
    (hdual : root.IsDualFeasible) : StaysAbove (root.dictionary.entry 0 0) later.restore := by
  have hdictionary := h.dictionary_restore
  refine ⟨⟨?_, ?_⟩, ?_, ?_⟩
  · rw [hdictionary]
    exact (hasBasis_primary hvalidate).toIsRectangular
  · apply hdual.of_row (by rw [hdictionary]) (by rw [hdictionary])
    intro index hindex
    cases index with
    | none => exact hindex
    | some index =>
      rw [isFree, Option.bind_some, Tableau.lookup?_restore h.snapshot] at hindex
      split at hindex
      · next hknown =>
        rw [isFree, Option.bind_some, ← h.known index hknown.1 hknown.2]
        exact hindex
      · exact absurd hindex (by simp)
  · rw [hdictionary]
    exact hheight
  · rw [hdictionary]

/-! ## Phase one on reduced costs that nothing improves -/

/-- Phase one is a dual simplex method.  Where the first objective cannot be improved, and
as long as the entries of the tableaus it meets are zero or clearly apart from it, every
pivot keeps that so and does not lower the objective; a feasible end is optimal for the
first objective, and phase two goes on with the secondary objectives alone.  A relaxation
that has an optimum and is solved again with cuts never ends with a smaller objective. -/
theorem phaseOne_dualSimplex :
    (∀ (effort : Effort) (t : Tableau Rat), t.validate = .ok () → t.IsDualFeasible →
      (∀ seen ∈ visited .one effort t, seen.HasClearEntries) →
      (∀ event ∈ phasePivots .one effort.pivots .empty t, event.after.IsDualFeasible ∧
        event.before.dictionary.entry 0 0 ≤ event.after.dictionary.entry 0 0) ∧
      ∀ t', runPhase .one effort t = .ok () t' → t'.isFeasible = true →
        (t.IsFeasiblePoint t'.dictionary.valueOf ∧
          t.cost t'.dictionary.valueOf = t'.dictionary.entry 0 0 ∧
          ∀ x, t.IsFeasiblePoint x → t'.dictionary.entry 0 0 ≤ t.cost x) ∧
        ∀ effort', (∀ seen ∈ visited .two effort' t', seen.HasClearEntries) →
          (∀ event ∈ phasePivots .two effort'.pivots .empty t',
            ∃ position, event.before.choosing? = some (position + 1)) ∧
          (finalState (runPhase .two effort' t')).dictionary.entry 0 0 =
            t'.dictionary.entry 0 0) ∧
    ∀ (space : SearchSpace Rat) (effort effort' : Effort) (first cuts : List (Cut Rat))
      (start root later : Tableau Rat),
      solveBranch space effort first start = .ok () root →
      root.isFeasible = true → root.isBounded = true →
      root.validate = .ok () → 0 < root.dictionary.height → root.HasClearEntries →
      ReturnsTo root later →
      (∀ seen ∈ branchTableaus space effort' cuts later, seen.HasClearEntries) →
      root.dictionary.entry 0 0 ≤
        (finalState (solveBranch space effort' cuts later)).dictionary.entry 0 0 := by
  constructor
  · intro effort t hvalidate hfeasible hvisited
    obtain ⟨hbefores, hlast⟩ := List.forall_mem_append.1 hvisited
    have hclear : ∀ event ∈ phasePivots .one effort.pivots .empty t,
        event.before.HasClearEntries := List.forall_mem_map.1 hbefores
    have hdual : t.IsDual := ⟨(hasBasis_primary hvalidate).toIsRectangular, hfeasible⟩
    obtain ⟨hpivots, hfinal⟩ := hdual.phaseOne hclear
    refine ⟨fun event hevent => ⟨(hpivots event hevent).1.feasible, (hpivots event hevent).2⟩, ?_⟩
    intro t' hok hverdict
    have hend := hlast _ List.mem_cons_self
    rw [hok] at hend hfinal
    refine ⟨hdual.optimal hvalidate hclear hok hverdict hend, ?_⟩
    intro effort' hvisited'
    obtain ⟨hchoosing, -, hvalue⟩ := IsDual.phaseTwo (t := t') hfinal
      (List.forall_mem_map.1 (List.forall_mem_append.1 hvisited').1)
    exact ⟨hchoosing, hvalue⟩
  · intro space effort effort' first cuts start root later hok hfeasible hbounded hvalidate
      hheight hclear hreturns hvisited
    have hstep := solveBranch_showsOptimum hok hfeasible hbounded
    have habove := hreturns.staysAbove hvalidate hheight (isDualFeasible_of_optimal hclear hstep)
    exact (habove.solveBranch hvisited).value_le

/-- Three variables whose sum is at least three while the first is at most five.  First the
first one is to be small, then twice the second one together with the third. -/
def threeShares : Tableau Rat :=
  { Tableau.blank 1e-9 with
    dictionary :=
      { matrix := #[#[0, -1, 0, 0], #[-3, -1, -1, -1], #[5, 1, 0, 0]]
        basic := #[none, some 3, some 4]
        nonBasic := #[none, some 0, some 1, some 2]
        rowOf := ⟨#[none, none, none, some 1, some 2]⟩
        columnOf := ⟨#[some 1, some 2, some 3]⟩
        secondary := [⟨⟨1⟩, #[0, 0, -2, -1]⟩] }
    pool := ⟨[], 5⟩
    arena := #[some (.declare "x" 1 0 .required .continuous false),
      some (.declare "y" 2 1 ⟨1⟩ .continuous false),
      some (.declare "z" 1 2 ⟨1⟩ .continuous false), some (.slack 3), some (.slack 4)] }

/-- Phase one brings in the second variable and phase two the third; bounds on both of them
then raise the objective. -/
theorem phaseOne_dualSimplex_threeShares :
    let effort : Effort := ⟨8, 0, 8, fun _ => 0⟩
    let space : SearchSpace Rat := ⟨[0, 1, 2], [], true, .standard⟩
    let cuts : List (Cut Rat) := [⟨.atMost, 1, 0⟩, ⟨.atMost, 2, 2⟩]
    (∃ t', runPhase .one effort threeShares = .ok () t' ∧
      (∀ x, threeShares.IsFeasiblePoint x → t'.dictionary.entry 0 0 ≤ threeShares.cost x) ∧
      (phasePivots .two 8 .empty t').map (fun event => event.before.choosing?) = [some 1]) ∧
    ∃ root, solveBranch space effort [] threeShares = .ok () root ∧
      (finalState (solveBranch space effort cuts root.save)).dictionary.entry 0 0 = 1 ∧
      root.dictionary.entry 0 0 ≤
        (finalState (solveBranch space effort cuts root.save)).dictionary.entry 0 0 := by
  intro effort space cuts
  obtain ⟨hphase, hagain⟩ := phaseOne_dualSimplex
  constructor
  · obtain ⟨t', hok⟩ : ∃ t', runPhase .one effort threeShares = .ok () t' := by decide +kernel
    have hend : (finalState (runPhase .one effort threeShares)).isFeasible = true ∧
        (phasePivots .two 8 .empty (finalState (runPhase .one effort threeShares))).map
          (fun event => event.before.choosing?) = [some 1] := by decide +kernel
    rw [hok] at hend
    obtain ⟨-, hfeasible⟩ := hphase effort threeShares (by decide +kernel) (by decide +kernel)
      (by decide +kernel)
    exact ⟨t', hok, (hfeasible t' hok hend.1).1.2.2, hend.2⟩
  · obtain ⟨root, hok⟩ : ∃ root, solveBranch space effort [] threeShares = .ok () root := by
      decide +kernel
    have hroot : (finalState (solveBranch space effort [] threeShares)).isFeasible = true ∧
        (finalState (solveBranch space effort [] threeShares)).isBounded = true ∧
        (finalState (solveBranch space effort [] threeShares)).validate = .ok () ∧
        0 < (finalState (solveBranch space effort [] threeShares)).dictionary.height ∧
        (finalState (solveBranch space effort [] threeShares)).HasClearEntries ∧
        (∀ seen ∈ branchTableaus space effort cuts
          (finalState (solveBranch space effort [] threeShares)).save, seen.HasClearEntries) ∧
        (finalState (solveBranch space effort cuts
          (finalState (solveBranch space effort [] threeShares)).save)).dictionary.entry 0 0 =
            1 := by
      decide +kernel
    rw [hok] at hroot
    obtain ⟨hfeasible, hbounded, hvalidate, hheight, hclear, hvisited, hvalue⟩ := hroot
    exact ⟨root, hok, hvalue, hagain space effort effort [] cuts threeShares root root.save hok
      hfeasible hbounded hvalidate hheight hclear (ReturnsTo.save root) hvisited⟩

end Tableau

end MixedInteger
