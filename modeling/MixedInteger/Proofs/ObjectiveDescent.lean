import MixedInteger.Proofs.Trail
import MixedInteger.Proofs.Verdicts

/-!
# The descent of the objectives

Phase two lets one objective choose the entering column, and only among the columns to
which all objectives before it are indifferent.  The values of the objectives, read in
the order of their priorities, therefore never increase in lexicographic order, and those
that stand before the choosing objective do not change at all.
-/

namespace MixedInteger

def PivotEvent.after {α : Type} [Scalar α] (event : PivotEvent α) : Tableau α :=
  event.before.pivot event.row event.column

namespace Dictionary

variable {d : Dictionary Rat} {r c : Nat}

/-- The values of the objectives at the basic solution, the first one first and the
secondary ones by ascending priority. -/
def objectiveValues (d : Dictionary Rat) : List Rat :=
  d.objectives.map fun row => entryOf row 0

/-- Every objective pays its reduced cost for the step of the entering variable. -/
theorem objectiveValues_pivot (h : d.HasBasis) (hr : r ∈ d.rows) (hc : c ∈ d.columns)
    (hexact : d.PivotExact r c) :
    (d.pivot r c).objectiveValues = d.objectives.map fun row =>
      entryOf row 0 - entryOf row c * (d.entry r 0 / d.entry r c) := by
  obtain ⟨hrpos, hrheight⟩ := mem_rows.1 hr
  obtain ⟨hcpos, hcwidth⟩ := mem_columns.1 hc
  have hsize : (d.row r).size = d.width := h.row_size r hrheight
  rw [objectiveValues, objectives_pivot h hr, List.map_map]
  apply List.map_congr_left
  intro row hrow
  have hrowSize := size_of_mem_objectives h (Nat.lt_trans hrpos hrheight) hrow
  have hentry := entryOf_eliminate (hrowSize.trans hsize.symm) hexact.row_exact
    (hcwidth.trans_eq hsize.symm) (hexact.exact_of_mem_objectives hrow) (d.entry r c)
    ((Nat.lt_trans hcpos hcwidth).trans_eq hsize.symm)
  rw [if_neg (Nat.ne_of_lt hcpos)] at hentry
  exact hentry

end Dictionary

namespace Tableau

/-! ## What a phase keeps -/

section Kept

variable {α : Type} [Scalar α] {phase : Phase} {t : Tableau α} {budget : Nat}
  {history : PivotHistory}

/-- A phase that asks for no pivot gives its verdict and leaves the rest alone. -/
theorem choosesAlike_phaseLoop (h : nextPivot? phase t = none) (budget : Nat)
    (history : PivotHistory) :
    ChoosesAlike t (finalState (phaseLoop phase (budget + 1) history t)) := by
  cases phase with
  | one =>
    cases hstep : t.phaseOneStep with
    | feasible =>
      simp only [phaseLoop, phaseOneLoop_of_feasible hstep]
      exact ⟨rfl, rfl, fun _ => rfl⟩
    | infeasible =>
      simp only [phaseLoop, phaseOneLoop_of_infeasible hstep]
      exact ⟨rfl, rfl, fun _ => rfl⟩
    | pivot r c => simp [nextPivot?, hstep] at h
  | two =>
    cases hstep : t.phaseTwoStep with
    | optimal =>
      simp only [phaseLoop, phaseTwoLoop_of_optimal hstep]
      exact ⟨rfl, rfl, fun _ => rfl⟩
    | unbounded column =>
      simp only [phaseLoop, phaseTwoLoop_of_unbounded hstep]
      exact ⟨rfl, rfl, fun _ => rfl⟩
    | pivot r c => simp [nextPivot?, hstep] at h

/-- What the pivots of a phase preserve holds before each of them and in the end. -/
theorem phaseLoop_kept (kept : Tableau α → Prop)
    (halike : ∀ {s s' : Tableau α}, ChoosesAlike s s' → kept s → kept s')
    (hkept : ∀ event ∈ phasePivots phase budget history t, kept event.before → kept event.after)
    (ht : kept t) :
    (∀ event ∈ phasePivots phase budget history t, kept event.before) ∧
      kept (finalState (phaseLoop phase budget history t)) := by
  induction budget generalizing history t with
  | zero => cases phase <;> exact ⟨fun event hevent => absurd hevent List.not_mem_nil, ht⟩
  | succ budget ih =>
    cases hnext : nextPivot? phase t with
    | none =>
      rw [(phaseLoop_of_none hnext budget history).1]
      exact ⟨fun event hevent => absurd hevent List.not_mem_nil,
        halike (choosesAlike_phaseLoop hnext budget history) ht⟩
    | some place =>
      obtain ⟨r, c⟩ := place
      rw [phasePivots_of_nextPivot? hnext] at hkept ⊢
      rw [phaseLoop_of_nextPivot? hnext]
      rcases notePivot_cases phase history r c t with ⟨history', hnote⟩ | ⟨cycle, hnote⟩
      · rw [hnote] at hkept ⊢
        obtain ⟨hfirst, hrest⟩ := List.forall_mem_cons.1 hkept
        obtain ⟨hbefore, hfinal⟩ := ih hrest (hfirst ht)
        exact ⟨List.forall_mem_cons.2 ⟨ht, hbefore⟩, hfinal⟩
      · rw [hnote]
        exact ⟨fun event hevent => absurd hevent List.not_mem_nil, ht⟩

end Kept

/-! ## The objective that chooses -/

section Choosing

variable {α : Type} [Scalar α]

/-- The entering column, with the position of the objective that promises it. -/
def rankedAmong? (t : Tableau α) : List Nat → List (Array α) → Option (Nat × Entering)
  | _, [] => none
  | columns, reducedCosts :: lower =>
    match t.mostPromising? reducedCosts columns with
    | some entering => some (0, entering)
    | none =>
      let isTied (c : Nat) : Bool :=
        Scalar.abs (Dictionary.entryOf reducedCosts c) < t.precision
      (t.rankedAmong? (columns.filter isTied) lower).map fun found => (found.1 + 1, found.2)

/-- The position of the objective by which the next column enters; position zero is the
objective proper. -/
def choosing? (t : Tableau α) : Option Nat :=
  (t.rankedAmong? t.dictionary.columns t.dictionary.objectives).map Prod.fst

theorem map_rankedAmong? (t : Tableau α) (columns : List Nat) (objectives : List (Array α)) :
    (t.rankedAmong? columns objectives).map Prod.snd = t.enteringAmong? columns objectives := by
  induction objectives generalizing columns with
  | nil => rfl
  | cons row lower ih =>
    rw [rankedAmong?, enteringAmong?]
    cases t.mostPromising? row columns with
    | some entering => rfl
    | none =>
      simp only [Option.map_map]
      exact ih _

/-- The choosing objective is the one that decides which column enters. -/
theorem exists_ranked_of_choosing? {t : Tableau α} {position : Nat}
    (h : t.choosing? = some position) :
    ∃ entering, t.entering? = some entering ∧
      t.rankedAmong? t.dictionary.columns t.dictionary.objectives = some (position, entering) := by
  obtain ⟨⟨found, entering⟩, hranked, rfl⟩ := Option.map_eq_some_iff.1 h
  refine ⟨entering, ?_, hranked⟩
  have hentering := map_rankedAmong? t t.dictionary.columns t.dictionary.objectives
  rw [hranked] at hentering
  exact hentering.symm

end Choosing

variable {t : Tableau Rat} {r c position : Nat} {entering : Entering}

/-- All objectives before the choosing one are indifferent to the entering column. -/
theorem entryOf_eq_zero_of_rankedAmong? {objectives : List (Array Rat)} {columns : List Nat}
    (hranked : t.rankedAmong? columns objectives = some (position, entering))
    {row : Array Rat} (hrow : row ∈ objectives.take position)
    (hclear : ∀ c, t.IsClear (Dictionary.entryOf row c)) :
    Dictionary.entryOf row entering.column = 0 := by
  induction objectives generalizing columns position with
  | nil => exact absurd hranked (by simp [rankedAmong?])
  | cons first lower ih =>
    rw [rankedAmong?] at hranked
    cases hmost : t.mostPromising? first columns with
    | some found =>
      rw [hmost, Option.some.injEq, Prod.mk.injEq] at hranked
      rw [← hranked.1] at hrow
      exact absurd hrow List.not_mem_nil
    | none =>
      rw [hmost] at hranked
      obtain ⟨⟨later, found⟩, hlater, heq⟩ := Option.map_eq_some_iff.1 hranked
      obtain ⟨rfl, rfl⟩ := Prod.mk.inj heq
      rcases List.mem_cons.1 hrow with rfl | hrest
      · -- The column was found among those that this objective left to the later ones.
        have hentering := congrArg (Option.map Prod.snd) hlater
        rw [map_rankedAmong?] at hentering
        have htied := (List.mem_filter.1 (mem_of_enteringAmong? hentering)).2
        rw [scalar_abs_eq] at htied
        exact (hclear found.column).eq_zero_of_le (le_of_lt (of_decide_eq_true htied))
      · exact ih hlater hrest

/-! ## One pivot -/

/-- A tableau on which phase two goes on with feasible basic solutions. -/
structure IsDescending (t : Tableau Rat) : Prop where
  hasBasis : t.dictionary.HasBasis
  precision_nonneg : 0 ≤ t.precision
  no_violated : t.violatedRow? = none

theorem IsDescending.of_choosesAlike {t t' : Tableau Rat} (halike : ChoosesAlike t t')
    (h : t.IsDescending) : t'.IsDescending := by
  refine ⟨?_, ?_, ?_⟩
  · rw [halike.dictionary]
    exact h.hasBasis
  · rw [halike.precision]
    exact h.precision_nonneg
  · rw [← phaseOneStep_eq_feasible_iff, halike.phaseOneStep, phaseOneStep_eq_feasible_iff]
    exact h.no_violated

theorem IsDescending.pivot (h : t.IsDescending) (hseparated : t.IsSeparated)
    (hstep : t.phaseTwoStep = .pivot r c) : (t.pivot r c).IsDescending := by
  obtain ⟨entering, hentering, rfl, hleaving⟩ := phaseTwoStep_eq_pivot_iff.1 hstep
  exact ⟨h.hasBasis.pivot (mem_rows_of_leavingRow? hleaving) (mem_columns_of_entering? hentering),
    h.precision_nonneg, violatedRow?_pivot h.hasBasis h.precision_nonneg
      (hseparated.pivotExact r _) h.no_violated hstep hseparated.not_isCareless⟩

/-- The entering variable moves by a step in its own direction, and every objective pays
its reduced cost for it. -/
theorem IsDescending.exists_step (h : t.IsDescending) (hseparated : t.IsSeparated)
    (hentering : t.entering? = some entering) (hleaving : t.leavingRow? entering = some r) :
    ∃ distance, 0 ≤ distance ∧
      (t.pivot r entering.column).dictionary.objectiveValues =
        t.dictionary.objectives.map fun row => Dictionary.entryOf row 0 -
          Dictionary.entryOf row entering.column * (entering.sign * distance) := by
  have hstep := phaseTwoStep_eq_pivot_iff.2 ⟨entering, hentering, rfl, hleaving⟩
  have hcareful := hseparated.not_isCareless (r := r) (c := entering.column)
  have hratio := (step_of_leavingRow? h.precision_nonneg h.no_violated hleaving
    (fun i hi => hcareful ⟨h.no_violated, entering, hentering, rfl, hleaving, .inl ⟨i, hi⟩⟩)
    (fun hbound => (hseparated.entry_clear r 0).eq_zero_of_le (le_of_lt hbound.2))).1
  refine ⟨t.ratio entering r, hratio, ?_⟩
  have hvalues := Dictionary.objectiveValues_pivot h.hasBasis (mem_rows_of_leavingRow? hleaving)
    (mem_columns_of_entering? hentering) (hseparated.pivotExact r entering.column)
  rw [div_eq_sign_mul_ratio] at hvalues
  exact hvalues

theorem IsDescending.objectiveValues_le (h : t.IsDescending) (hseparated : t.IsSeparated)
    (hstep : t.phaseTwoStep = .pivot r c) :
    (t.pivot r c).dictionary.objectiveValues ≤ t.dictionary.objectiveValues := by
  obtain ⟨entering, hentering, rfl, hleaving⟩ := phaseTwoStep_eq_pivot_iff.1 hstep
  obtain ⟨distance, hdistance, hvalues⟩ := h.exists_step hseparated hentering hleaving
  rw [hvalues]
  rcases hdistance.eq_or_lt with hzero | hpositive
  · apply le_of_eq
    apply List.map_congr_left
    intro row _
    rw [← hzero, mul_zero, mul_zero, sub_zero]
  · exact le_of_lt (lt_of_enteringAmong? hseparated.precision_pos
      (fun row hrow => hseparated.clear_of_mem_objectives hrow) hentering hpositive)

theorem IsDescending.take_objectiveValues (h : t.IsDescending) (hseparated : t.IsSeparated)
    (hstep : t.phaseTwoStep = .pivot r c) (hchoosing : t.choosing? = some position) :
    (t.pivot r c).dictionary.objectiveValues.take position =
      t.dictionary.objectiveValues.take position := by
  obtain ⟨entering, hentering, rfl, hleaving⟩ := phaseTwoStep_eq_pivot_iff.1 hstep
  obtain ⟨distance, -, hvalues⟩ := h.exists_step hseparated hentering hleaving
  obtain ⟨found, hfound, hranked⟩ := exists_ranked_of_choosing? hchoosing
  obtain rfl : entering = found := Option.some.inj (hentering.symm.trans hfound)
  rw [hvalues, Dictionary.objectiveValues, ← List.map_take, ← List.map_take]
  apply List.map_congr_left
  intro row hrow
  rw [entryOf_eq_zero_of_rankedAmong? hranked hrow
    (hseparated.clear_of_mem_objectives (List.mem_of_mem_take hrow)), zero_mul, sub_zero]

/-! ## Whole runs -/

/-- Phase two never worsens a higher objective for a lower one.  On a feasible basic
solution, and as long as the numbers it meets are zero or clearly apart from it, every
pivot leaves the values of the objectives at most as large, in lexicographic order, and
leaves those before the choosing objective as they are. -/
theorem objectiveValues_descend (effort : Effort) (t : Tableau Rat)
    (hvalidate : t.validate = .ok ())
    (hsecondary : ∀ objective ∈ t.dictionary.secondary,
      objective.reducedCosts.size = t.dictionary.width)
    (hfeasible : t.HasFeasibleBasis)
    (hvisited : ∀ seen ∈ visited .two effort t, seen.IsSeparated) :
    (∀ event ∈ phasePivots .two effort.pivots .empty t,
      event.after.dictionary.objectiveValues ≤ event.before.dictionary.objectiveValues ∧
        ∀ position, event.before.choosing? = some position →
          event.after.dictionary.objectiveValues.take position =
            event.before.dictionary.objectiveValues.take position) ∧
      (finalState (runPhase .two effort t)).dictionary.objectiveValues ≤
        t.dictionary.objectiveValues := by
  obtain ⟨hbefores, hfinal⟩ := List.forall_mem_append.1 hvisited
  have hseparated : ∀ event ∈ phasePivots .two effort.pivots .empty t,
      event.before.IsSeparated := List.forall_mem_map.1 hbefores
  have hframe := (phaseTwoLoop_pivotsTo (fun _ _ _ => True) effort.pivots .empty t
    fun _ _ => trivial).1
  have hprecision : 0 ≤ t.precision := by
    rw [← hframe.precision]
    exact le_of_lt (hfinal _ List.mem_cons_self).precision_pos
  have hstart : t.IsDescending := by
    refine ⟨hasBasis_of_validate hvalidate hsecondary, hprecision, ?_⟩
    rw [violatedRow?_eq_none_iff]
    intro r hr
    exact (neg_nonpos.2 hprecision).trans (hfeasible r hr)
  have hkept : ∀ event ∈ phasePivots .two effort.pivots .empty t,
      event.before.IsDescending ∧
        event.before.dictionary.objectiveValues ≤ t.dictionary.objectiveValues →
      event.after.IsDescending ∧
        event.after.dictionary.objectiveValues ≤ t.dictionary.objectiveValues := by
    rintro event hevent ⟨hdescending, hle⟩
    have hstep := (mem_phaseTwoPivots hevent).1
    exact ⟨hdescending.pivot (hseparated event hevent) hstep,
      (hdescending.objectiveValues_le (hseparated event hevent) hstep).trans hle⟩
  have hrun := phaseLoop_kept
    (fun s => s.IsDescending ∧ s.dictionary.objectiveValues ≤ t.dictionary.objectiveValues)
    (fun halike hs => ⟨hs.1.of_choosesAlike halike, by rw [halike.dictionary]; exact hs.2⟩)
    hkept ⟨hstart, le_refl _⟩
  refine ⟨?_, ?_⟩
  · intro event hevent
    have hdescending := (hrun.1 event hevent).1
    have hstep := (mem_phaseTwoPivots hevent).1
    refine ⟨hdescending.objectiveValues_le (hseparated event hevent) hstep, ?_⟩
    intro position hchoosing
    exact hdescending.take_objectiveValues (hseparated event hevent) hstep hchoosing
  · rw [runPhase_eq]
    exact hrun.2.2

/-- Two variables, both of them bounded.  First the first one is to be large, then the
second one. -/
def twoStages : Tableau Rat :=
  { Tableau.blank 1e-9 with
    dictionary :=
      { matrix := #[#[0, 1, 0], #[4, 1, 1], #[3, 1, 0]]
        basic := #[none, some 2, some 3]
        nonBasic := #[none, some 0, some 1]
        rowOf := ⟨#[none, none, some 1, some 2]⟩
        columnOf := ⟨#[some 1, some 2]⟩
        secondary := [⟨⟨1⟩, #[0, 0, 1]⟩] } }

theorem objectiveValues_descend_twoStages :
    (phasePivots .two 8 .empty twoStages).map
        (fun event => (event.before.choosing?, event.after.dictionary.objectiveValues)) =
      [(some 0, [-3, 0]), (some 1, [-3, -1])] ∧
      ∀ event ∈ phasePivots .two 8 .empty twoStages,
        event.after.dictionary.objectiveValues ≤ event.before.dictionary.objectiveValues ∧
          ∀ position, event.before.choosing? = some position →
            event.after.dictionary.objectiveValues.take position =
              event.before.dictionary.objectiveValues.take position := by
  have hfeasible : twoStages.HasFeasibleBasis := by
    have hrows : ∀ r ∈ twoStages.dictionary.rows, 0 ≤ twoStages.dictionary.entry r 0 := by
      decide +kernel
    intro r hr
    exact hrows r hr.1
  exact ⟨by decide +kernel,
    (objectiveValues_descend ⟨8, 0, 0, fun _ => 0⟩ twoStages (by decide +kernel)
      (by decide +kernel) hfeasible (by decide +kernel)).1⟩

end Tableau

end MixedInteger
