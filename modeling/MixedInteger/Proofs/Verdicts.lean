import MixedInteger.Proofs.Optimality

/-!
# Runs of the simplex method

Phase two keeps the basic solution feasible, so the tableau at which a run stops
certifies its verdict; the pivots before it carry the certificate back to the tableau
at which the run started.
-/

namespace MixedInteger

namespace Dictionary

/-- The right-hand sides after a pivot. -/
theorem entry_pivot_zero {d : Dictionary Rat} {r c i : Nat} (h : d.HasBasis) (hr : r ∈ d.rows)
    (hc : c ∈ d.columns) (hexact : d.PivotExact r c) (hi : i ∈ d.rows) :
    (d.pivot r c).entry i 0 =
      if i = r then d.entry r 0 / d.entry r c
      else d.entry i 0 - d.entry i c * (d.entry r 0 / d.entry r c) := by
  obtain ⟨hcpos, hcwidth⟩ := mem_columns.1 hc
  have hsize {j : Nat} (hj : j ∈ d.rows) : (d.row j).size = d.width :=
    h.row_size j (mem_rows.1 hj).2
  have hmatrix : i < d.matrix.size := by
    rw [h.matrix_size]
    exact (mem_rows.1 hi).2
  have hcolumn : c < (d.row r).size := by
    rw [hsize hr]
    exact hcwidth
  have hzero : 0 < (d.row r).size := Nat.lt_of_le_of_lt (Nat.zero_le c) hcolumn
  have hne : (0 : Nat) ≠ c := Nat.ne_of_lt hcpos
  rw [entry, row_pivot d r c hmatrix]
  by_cases hir : i = r
  · rw [if_pos hir, if_pos hir, entryOf_normalise hexact.row_exact hcolumn _ hzero, if_neg hne]
    rfl
  · rw [if_neg hir, if_neg hir, entryOf_eliminate ((hsize hi).trans (hsize hr).symm)
      hexact.row_exact hcolumn (hexact.column_exact i) _ hzero, if_neg hne]
    rfl

end Dictionary

namespace Tableau

variable {t t' : Tableau Rat} {r c : Nat} {entering : Entering} {x : Nat → Rat}

/-! ## The ratio test -/

/-- The ratio test does not look at a row that the entering variable makes smaller. -/
structure PassesOver (t : Tableau Rat) (entering : Entering) (r : Nat) : Prop where
  restricted : t.IsRestrictedRow r
  falls : 0 < entering.sign * t.dictionary.entry r entering.column
  missed : |t.dictionary.entry r entering.column| < t.precision ∨
    ¬ t.IsAtBound entering r ∧ t.ratio entering r ≤ t.precision

/-- A pivot of phase two whose ratio test passes a row over, or takes a row to be at its
bound that is only close to it. -/
def IsCareless (t : Tableau Rat) (r c : Nat) : Prop :=
  t.violatedRow? = none ∧ ∃ entering, t.entering? = some entering ∧ entering.column = c ∧
    t.leavingRow? entering = some r ∧
      ((∃ i, t.PassesOver entering i) ∨
        t.IsAtBound entering r ∧ t.dictionary.entry r 0 ≠ 0)

theorem div_eq_sign_mul_ratio (t : Tableau Rat) (entering : Entering) (r : Nat) :
    t.dictionary.entry r 0 / t.dictionary.entry r entering.column =
      entering.sign * t.ratio entering r := by
  rw [ratio, mul_div_assoc, ← mul_assoc, entering.sign_mul_self, one_mul]

/-- The step of the entering variable takes no restricted row below the precision. -/
theorem step_of_leavingRow? (hprecision : 0 ≤ t.precision) (hviolated : t.violatedRow? = none)
    (hleaving : t.leavingRow? entering = some r)
    (hpassed : ∀ i, ¬ t.PassesOver entering i)
    (hbound : t.IsAtBound entering r → t.dictionary.entry r 0 = 0) :
    0 ≤ t.ratio entering r ∧ ∀ i, t.IsRestrictedRow i → -t.precision ≤
      t.dictionary.entry i 0 -
        entering.sign * t.dictionary.entry i entering.column * t.ratio entering r := by
  have hstart := violatedRow?_eq_none_iff.1 hviolated
  rcases (of_leavingRow? hleaving).2 with hdegenerate | hsmallest
  · have hratio : t.ratio entering r = 0 := by
      rw [ratio, hbound hdegenerate, mul_zero, zero_div]
    rw [hratio]
    refine ⟨le_refl 0, ?_⟩
    intro i hi
    rw [mul_zero, sub_zero]
    exact hstart i hi
  · have hpositive : 0 ≤ t.ratio entering r := le_trans hprecision (le_of_lt hsmallest.ratio_large)
    refine ⟨hpositive, ?_⟩
    intro i hi
    have hvalue := hstart i hi
    rcases le_or_gt (entering.sign * t.dictionary.entry i entering.column) 0 with hrises | hfalls
    · have hgain := mul_nonpos_of_nonpos_of_nonneg hrises hpositive
      linarith
    · by_cases hsmall : |t.dictionary.entry i entering.column| < t.precision
      · exact absurd ⟨hi, hfalls, .inl hsmall⟩ (hpassed i)
      · have hblocks : t.Blocks entering i := ⟨hi, not_lt.1 hsmall⟩
        have hlarge : t.precision < t.ratio entering i := by
          by_contra hle
          exact hpassed i
            ⟨hi, hfalls, .inr ⟨hsmallest.none_at_bound i hblocks, not_lt.1 hle⟩⟩
        have hle := hsmallest.ratio_le i hblocks hlarge
        rw [ratio_eq (r := i), le_div_iff₀ hfalls] at hle
        linarith

/-- A pivot of phase two that is not careless keeps the basic solution feasible. -/
theorem violatedRow?_pivot (h : t.dictionary.HasBasis) (hprecision : 0 ≤ t.precision)
    (hexact : t.dictionary.PivotExact r c) (hviolated : t.violatedRow? = none)
    (hstep : t.phaseTwoStep = .pivot r c) (hcareful : ¬ t.IsCareless r c) :
    (t.pivot r c).violatedRow? = none := by
  obtain ⟨entering, hentering, rfl, hleaving⟩ := phaseTwoStep_eq_pivot_iff.1 hstep
  have hc := mem_columns_of_entering? hentering
  have hr := mem_rows_of_leavingRow? hleaving
  have hpassed : ∀ i, ¬ t.PassesOver entering i := by
    intro i hi
    exact hcareful ⟨hviolated, entering, hentering, rfl, hleaving, .inl ⟨i, hi⟩⟩
  have hbound : t.IsAtBound entering r → t.dictionary.entry r 0 = 0 := by
    intro hdegenerate
    by_contra hne
    exact hcareful ⟨hviolated, entering, hentering, rfl, hleaving, .inr ⟨hdegenerate, hne⟩⟩
  obtain ⟨hratio, hrows⟩ := step_of_leavingRow? hprecision hviolated hleaving hpassed hbound
  obtain ⟨leavingIndex, hleavingIndex⟩ := h.exists_basicAt hr
  obtain ⟨enteringIndex, henteringIndex⟩ := h.exists_nonBasicAt hc
  rw [violatedRow?_eq_none_iff]
  intro i hi
  have hmem : i ∈ t.dictionary.rows := Dictionary.mem_rows_pivot.1 hi.1
  have hentry := Dictionary.entry_pivot_zero h hr hc hexact hmem
  have hfree : t.isFree ((t.dictionary.pivot r entering.column).basicAt i) = false := hi.2
  rw [Dictionary.basicAt_pivot hr hleavingIndex henteringIndex] at hfree
  change -t.precision ≤ (t.dictionary.pivot r entering.column).entry i 0
  rw [hentry, div_eq_sign_mul_ratio]
  by_cases hir : i = r
  · rw [if_pos hir, ← henteringIndex] at hfree
    rw [if_pos hir, sign_eq_one hentering hfree, one_mul]
    linarith
  · rw [if_neg hir] at hfree
    rw [if_neg hir]
    have hrow := hrows i ⟨hmem, hfree⟩
    linarith

theorem IsSeparated.not_isCareless (h : t.IsSeparated) : ¬ t.IsCareless r c := by
  rintro ⟨hviolated, entering, hentering, -, -, ⟨i, hi⟩ | ⟨hbound, hne⟩⟩
  · rcases hi.missed with hsmall | ⟨hbound, hratio⟩
    · exact absurd hsmall (not_lt.2 (blocks_of_falls h hi.restricted hi.falls).2)
    · exact absurd hratio (not_le.2 (precision_lt_ratio h (h.hasFeasibleBasis hviolated)
        (mem_columns_of_entering? hentering) hi.restricted hi.falls hbound))
  · exact hne ((h.entry_clear r 0).eq_zero_of_le (le_of_lt hbound.2))

/-! ## The final tableau -/

/-- The verdict of a tableau is the one that its own next step gives. -/
inductive IsCertified (t : Tableau Rat) : Prop where
  | infeasible (hverdict : t.isFeasible = false) (hstep : t.phaseOneStep = .infeasible)
  | optimal (hfeasible : t.isFeasible = true) (hbounded : t.isBounded = true)
      (hviolated : t.violatedRow? = none) (hstep : t.phaseTwoStep = .optimal)
  | unbounded (hfeasible : t.isFeasible = true) (hbounded : t.isBounded = false)
      (hviolated : t.violatedRow? = none) {column : Nat}
      (hstep : t.phaseTwoStep = .unbounded column)
      (hindex : t.unboundedIndex = t.dictionary.nonBasicAt column)

/-- A tableau on which phase two works. -/
structure IsPrimal (t : Tableau Rat) : Prop where
  feasible : t.isFeasible = true
  bounded : t.isBounded = true
  hasBasis : t.dictionary.HasBasis
  no_violated : t.violatedRow? = none

theorem IsPrimal.pivot (h : t.IsPrimal) (hprecision : 0 ≤ t.precision)
    (hexact : t.dictionary.PivotExact r c) (hstep : t.phaseTwoStep = .pivot r c)
    (hcareful : ¬ t.IsCareless r c) : (t.pivot r c).IsPrimal := by
  obtain ⟨entering, hentering, hcolumn, hleaving⟩ := phaseTwoStep_eq_pivot_iff.1 hstep
  have hc : c ∈ t.dictionary.columns := by
    rw [← hcolumn]
    exact mem_columns_of_entering? hentering
  exact ⟨h.feasible, h.bounded, h.hasBasis.pivot (mem_rows_of_leavingRow? hleaving) hc,
    violatedRow?_pivot h.hasBasis hprecision hexact h.no_violated hstep hcareful⟩

/-- Phase two, without a careless pivot, stays with feasible basic solutions. -/
theorem phaseTwo_certified {effort : Effort} (h : t.IsPrimal) (hprecision : 0 ≤ t.precision)
    (hpivots : ∀ event ∈ phaseTwoPivots effort.pivots .empty t,
      event.before.dictionary.PivotExact event.row event.column ∧
        ¬ event.before.IsCareless event.row event.column)
    (hok : phaseTwo effort t = .ok () t') : t'.IsCertified := by
  have hkept : ∀ event ∈ phaseTwoPivots effort.pivots .empty t, event.before.IsPrimal →
      (event.before.pivot event.row event.column).IsPrimal := by
    intro event hevent hbefore
    obtain ⟨hstep, hframe⟩ := mem_phaseTwoPivots hevent
    rw [← hframe.precision] at hprecision
    exact hbefore.pivot hprecision (hpivots event hevent).1 hstep (hpivots event hevent).2
  obtain ⟨last, hlast, hend⟩ := phaseTwoLoop_eq_ok IsPrimal hkept hok h
  rcases hend with ⟨hstep, rfl⟩ | ⟨column, hstep, rfl⟩
  · have hframe : SameFrame last last.recordOptimum := ⟨rfl, rfl, rfl, rfl, rfl⟩
    exact .optimal hlast.feasible hlast.bounded hlast.no_violated
      ((hframe.phaseTwoStep rfl).trans hstep)
  · have hframe : SameFrame last (last.recordUnbounded column) := ⟨rfl, rfl, rfl, rfl, rfl⟩
    exact .unbounded hlast.feasible rfl hlast.no_violated
      ((hframe.phaseTwoStep rfl).trans hstep) rfl

theorem simplex_certified {effort : Effort} (h : t.dictionary.HasBasis)
    (hprecision : 0 ≤ t.precision)
    (hpivots : ∀ event ∈ simplexPivots effort t,
      event.before.dictionary.PivotExact event.row event.column ∧
        ¬ event.before.IsCareless event.row event.column)
    (hok : simplex effort t = .ok () t') : t'.IsCertified := by
  rcases simplex_eq_ok hok with
    ⟨last, hstep, rfl⟩ | ⟨last, start, hstep, rfl, hone, hbounded, htwo, hmem⟩
  · exact .infeasible rfl hstep
  · obtain ⟨hframe, hrun⟩ := phaseOneLoop_pivotsTo (fun _ _ _ => True) effort.pivots .empty
      t.cleared fun _ _ => trivial
    change phaseOneLoop effort.pivots .empty t.cleared = _ at hone
    rw [hone] at hframe hrun
    apply phaseTwo_certified _ _ (fun event hevent => hpivots event (hmem event hevent)) htwo
    · exact ⟨rfl, hbounded, hrun.hasBasis h, phaseOneStep_eq_feasible_iff.1 hstep⟩
    · exact hprecision.trans_eq hframe.precision.symm

/-! ## The starting tableau -/

/-- A run of the simplex method, from where it started to where it stopped. -/
structure StopsAt (t t' : Tableau Rat) : Prop where
  frame : SameFrame t t'
  program : Dictionary.SameProgram t.dictionary t'.dictionary
  named : t'.dictionary.IsNamed
  certified : t'.IsCertified

theorem simplex_stopsAt {effort : Effort} (h : t.dictionary.HasBasis)
    (hok : simplex effort t = .ok () t')
    (hpivots : ∀ event ∈ simplexPivots effort t, event.before.IsSeparated)
    (hseparated : t'.IsSeparated) : StopsAt t t' := by
  have hframe := (simplex_onlyPivots effort t).1
  rw [hok] at hframe
  have hprecision : 0 ≤ t.precision := by
    rw [← hframe.precision]
    exact le_of_lt hseparated.precision_pos
  have hrun := (simplex_pivotsTo Dictionary.PivotKeeps effort t fun event hevent =>
    ⟨(hpivots event hevent).pivotExact event.row event.column,
      entry_ne_zero_of_mem_simplexPivots hprecision hevent⟩).2
  rw [hok] at hrun
  have hcertified := simplex_certified h hprecision (fun event hevent =>
    ⟨(hpivots event hevent).pivotExact event.row event.column,
      (hpivots event hevent).not_isCareless⟩) hok
  exact ⟨hframe, hrun.sameProgram h, (hrun.hasBasis h).toIsNamed, hcertified⟩

namespace StopsAt

theorem isFeasiblePoint_iff (h : StopsAt t t') : t'.IsFeasiblePoint x ↔ t.IsFeasiblePoint x := by
  have hadmits : t'.Admits x ↔ t.Admits x := by
    apply forall_congr'
    intro index
    rw [h.program.hasVariable_iff, h.frame.isFree]
  rw [IsFeasiblePoint, IsFeasiblePoint, h.program.satisfies_iff, hadmits]

theorem objectiveVector_eq (h : StopsAt t t') (hx : t.IsFeasiblePoint x) :
    t.dictionary.objectiveVector x = t'.dictionary.objectiveVector x :=
  (h.program.objectiveVector_eq x hx.1).symm

theorem isFeasiblePoint_valueOf (h : StopsAt t t') (hseparated : t'.IsSeparated)
    (hviolated : t'.violatedRow? = none) : t.IsFeasiblePoint t'.dictionary.valueOf := by
  apply h.isFeasiblePoint_iff.1
  constructor
  · exact Dictionary.satisfies_valueOf h.named
  · exact admits_valueOf h.named (hseparated.hasFeasibleBasis hviolated)

theorem not_isFeasiblePoint (h : StopsAt t t') (hseparated : t'.IsSeparated)
    (hinfeasible : t'.isFeasible = false) : ¬ t.IsFeasiblePoint x := by
  cases h.certified with
  | infeasible _ hstep =>
    rw [← h.isFeasiblePoint_iff]
    exact not_isFeasiblePoint_of_infeasible h.named hseparated hstep
  | optimal hfeasible => exact absurd (hinfeasible.symm.trans hfeasible) (by simp)
  | unbounded hfeasible => exact absurd (hinfeasible.symm.trans hfeasible) (by simp)

theorem optimal (h : StopsAt t t') (hseparated : t'.IsSeparated)
    (hfeasible : t'.isFeasible = true) (hbounded : t'.isBounded = true) :
    t.IsFeasiblePoint t'.dictionary.valueOf ∧ ∀ x, t.IsFeasiblePoint x →
      ¬ t.dictionary.objectiveVector x < t.dictionary.objectiveVector t'.dictionary.valueOf := by
  cases h.certified with
  | infeasible hinfeasible => exact absurd (hinfeasible.symm.trans hfeasible) (by simp)
  | optimal _ _ hviolated hstep =>
    have hvalueOf := h.isFeasiblePoint_valueOf hseparated hviolated
    refine ⟨hvalueOf, ?_⟩
    intro x hx
    rw [h.objectiveVector_eq hx, h.objectiveVector_eq hvalueOf]
    exact not_objectiveVector_lt_of_optimal h.named hseparated hstep
      (h.isFeasiblePoint_iff.2 hx).2
  | unbounded _ hunbounded => exact absurd (hunbounded.symm.trans hbounded) (by simp)

theorem unbounded (h : StopsAt t t') (hseparated : t'.IsSeparated)
    (hfeasible : t'.isFeasible = true) (hunbounded : t'.isBounded = false) :
    ∃ index column direction, t'.unboundedIndex = some index ∧
      t'.dictionary.nonBasicAt column = some index ∧ (direction = 1 ∨ direction = -1) ∧
      ∀ distance > 0,
        t.IsFeasiblePoint (t'.dictionary.moved column (direction * distance)) ∧
          t.dictionary.objectiveVector (t'.dictionary.moved column (direction * distance)) <
            t.dictionary.objectiveVector t'.dictionary.valueOf := by
  cases h.certified with
  | infeasible hinfeasible => exact absurd (hinfeasible.symm.trans hfeasible) (by simp)
  | optimal _ hbounded => exact absurd (hunbounded.symm.trans hbounded) (by simp)
  | unbounded _ _ hviolated hstep hrecorded =>
    obtain ⟨entering, hentering, rfl, hleaving⟩ := phaseTwoStep_eq_unbounded_iff.1 hstep
    have hcolumn := mem_columns_of_entering? hentering
    obtain ⟨index, hindex⟩ := h.named.exists_nonBasicAt hcolumn
    refine ⟨index, entering.column, entering.sign, hrecorded.trans hindex, hindex,
      entering.sign_cases, ?_⟩
    intro distance hdistance
    have hmoved : t.IsFeasiblePoint
        (t'.dictionary.moved entering.column (entering.sign * distance)) := by
      apply h.isFeasiblePoint_iff.1
      constructor
      · exact Dictionary.satisfies_moved h.named hcolumn _
      · exact admits_moved h.named hseparated (hseparated.hasFeasibleBasis hviolated) hentering
          hleaving (le_of_lt hdistance)
    refine ⟨hmoved, ?_⟩
    rw [h.objectiveVector_eq hmoved,
      h.objectiveVector_eq (h.isFeasiblePoint_valueOf hseparated hviolated)]
    exact objectiveVector_moved_lt h.named hseparated hentering hdistance

end StopsAt

/-- The verdicts of the simplex method are right about the tableau it started from. If
it reports an infeasible tableau, no assignment satisfies the rows and restrictions. If
it reports a bounded one, the basic solution does, and no other assignment has smaller
objectives in lexicographic order. If it reports an unbounded one, the recorded variable
can be moved from the basic solution by any distance in some direction, and all
objectives together become smaller. -/
theorem simplex_verdicts (effort : Effort) (t t' : Tableau Rat) (hvalidate : t.validate = .ok ())
    (hsecondary : ∀ objective ∈ t.dictionary.secondary,
      objective.reducedCosts.size = t.dictionary.width)
    (hok : simplex effort t = .ok () t')
    (hpivots : ∀ event ∈ simplexPivots effort t, event.before.IsSeparated)
    (hseparated : t'.IsSeparated) :
    (t'.isFeasible = false → ∀ x, ¬ t.IsFeasiblePoint x) ∧
      (t'.isFeasible = true → t'.isBounded = true →
        t.IsFeasiblePoint t'.dictionary.valueOf ∧
          ∀ x, t.IsFeasiblePoint x →
            ¬ t.dictionary.objectiveVector x <
              t.dictionary.objectiveVector t'.dictionary.valueOf) ∧
      (t'.isFeasible = true → t'.isBounded = false →
        ∃ index column direction, t'.unboundedIndex = some index ∧
          t'.dictionary.nonBasicAt column = some index ∧ (direction = 1 ∨ direction = -1) ∧
          ∀ distance > 0,
            t.IsFeasiblePoint (t'.dictionary.moved column (direction * distance)) ∧
              t.dictionary.objectiveVector (t'.dictionary.moved column (direction * distance)) <
                t.dictionary.objectiveVector t'.dictionary.valueOf) := by
  have hbasis := hasBasis_of_validate hvalidate hsecondary
  have hstops := simplex_stopsAt hbasis hok hpivots hseparated
  refine ⟨?_, ?_, ?_⟩
  · intro hinfeasible x
    exact hstops.not_isFeasiblePoint hseparated hinfeasible
  · exact hstops.optimal hseparated
  · exact hstops.unbounded hseparated

/-- Two variables, whose sum is at least three while the first is at most five. First the
first one is to be small, then the second one. -/
def twoGoals : Tableau Rat :=
  { Tableau.blank 1e-9 with
    dictionary :=
      { matrix := #[#[0, -1, 0], #[-3, -1, -1], #[5, 1, 0]]
        basic := #[none, some 2, some 3]
        nonBasic := #[none, some 0, some 1]
        rowOf := ⟨#[none, none, some 1, some 2]⟩
        columnOf := ⟨#[some 1, some 2]⟩
        secondary := [⟨⟨1⟩, #[0, 0, -1]⟩] } }

theorem simplex_verdicts_twoGoals :
    ∃ t', simplex ⟨8, 0, 8, fun _ => 0⟩ twoGoals = .ok () t' ∧ t'.dictionary.valueOf 1 = 3 ∧
      twoGoals.IsFeasiblePoint t'.dictionary.valueOf ∧
        ∀ x, twoGoals.IsFeasiblePoint x →
          ¬ twoGoals.dictionary.objectiveVector x <
            twoGoals.dictionary.objectiveVector t'.dictionary.valueOf := by
  obtain ⟨t', hok⟩ : ∃ t', simplex ⟨8, 0, 8, fun _ => 0⟩ twoGoals = .ok () t' := by
    decide +kernel
  have hfinal : (finalState (simplex ⟨8, 0, 8, fun _ => 0⟩ twoGoals)).IsSeparated ∧
      (finalState (simplex ⟨8, 0, 8, fun _ => 0⟩ twoGoals)).isFeasible = true ∧
      (finalState (simplex ⟨8, 0, 8, fun _ => 0⟩ twoGoals)).isBounded = true ∧
      (finalState (simplex ⟨8, 0, 8, fun _ => 0⟩ twoGoals)).dictionary.valueOf 1 = 3 := by
    decide +kernel
  rw [hok] at hfinal
  obtain ⟨hseparated, hfeasible, hbounded, hvalue⟩ := hfinal
  have hverdicts := simplex_verdicts ⟨8, 0, 8, fun _ => 0⟩ twoGoals t' (by decide +kernel)
    (by decide +kernel) hok (by decide +kernel) hseparated
  exact ⟨t', hok, hvalue, hverdicts.2.1 hfeasible hbounded⟩

end Tableau

end MixedInteger
