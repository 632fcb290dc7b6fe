import MixedInteger.Proofs.Meaning
import MixedInteger.Proofs.Selection

/-!
# What the simplex method chooses

Over the rationals every choice of the two phases is described by comparisons of
entries: which row is violated, which column repairs it, which column promises an
improvement, and which row leaves the basis by the ratio test.
-/

namespace MixedInteger

theorem Extended.lt_irrefl (mark : Extended Rat) : Extended.lt mark mark = false := by
  cases mark <;> simp [Extended.lt]

theorem Extended.lt_trans (first second third : Extended Rat)
    (hfirst : Extended.lt first second = true) (hsecond : Extended.lt second third = true) :
    Extended.lt first third = true := by
  cases first <;> cases second <;> cases third <;>
    simp_all [Extended.lt, Scalar.isBelowTop, Scalar.isAboveBottom]
  exact hfirst.trans hsecond

namespace Tableau

variable {t : Tableau Rat} {r c : Nat} {entering : Entering}

/-! ## Phase one -/

/-- The basic variable of a row has to be non-negative. -/
def IsRestrictedRow (t : Tableau Rat) (r : Nat) : Prop :=
  r ∈ t.dictionary.rows ∧ t.isFree (t.dictionary.basicAt r) = false

theorem violatedRow?_eq_none_iff :
    t.violatedRow? = none ↔
      ∀ r, t.IsRestrictedRow r → -t.precision ≤ t.dictionary.entry r 0 := by
  unfold violatedRow?
  rw [select_eq_none_iff, List.forall_mem_map]
  constructor
  · intro hrows r hr
    have hrow := hrows r (List.mem_filter.2 ⟨hr.1, by rw [hr.2]; rfl⟩)
    simpa using hrow
  · intro hrows r hr
    obtain ⟨hmem, hfree⟩ := List.mem_filter.1 hr
    have hrow := hrows r ⟨hmem, by simpa using hfree⟩
    simpa using hrow

theorem of_violatedRow? (h : t.violatedRow? = some r) :
    t.IsRestrictedRow r ∧ t.dictionary.entry r 0 < -t.precision := by
  obtain ⟨mark, hmem, hbeats, -⟩ := select_eq_some_best h (by simp) (by simp; grind)
  obtain ⟨r', hr', heq⟩ := List.mem_map.1 hmem
  obtain ⟨rfl, rfl⟩ := Prod.mk.inj heq
  obtain ⟨hrow, hfree⟩ := List.mem_filter.1 hr'
  exact ⟨⟨hrow, by simpa using hfree⟩, by simpa using hbeats⟩

/-- The variable of a column can grow or shrink so that a row grows. -/
structure Repairs (t : Tableau Rat) (r c : Nat) : Prop where
  mem_columns : c ∈ t.dictionary.columns
  entry_large : t.precision < |t.dictionary.entry r c|
  direction : t.dictionary.entry r c < 0 ∨ t.isFree (t.dictionary.nonBasicAt c) = true

theorem mem_filter_repairs_iff :
    c ∈ (t.dictionary.columns.filter fun c =>
      !(Scalar.abs (Dictionary.entryOf (t.dictionary.row r) c) ≤ t.precision : Bool) &&
        (Dictionary.entryOf (t.dictionary.row r) c < 0 ||
          t.isFree (t.dictionary.nonBasicAt c))) ↔ t.Repairs r c := by
  have hentry : Dictionary.entryOf (t.dictionary.row r) c = t.dictionary.entry r c := rfl
  rw [List.mem_filter, Bool.and_eq_true, Bool.or_eq_true, Bool.not_eq_true',
    decide_eq_false_iff_not, decide_eq_true_iff, hentry, scalar_abs_eq, not_le]
  constructor
  · intro h
    exact ⟨h.1, h.2.1, h.2.2⟩
  · intro h
    exact ⟨h.mem_columns, h.entry_large, h.direction⟩

theorem repairingColumn?_eq_none_iff : t.repairingColumn? r = none ↔ ∀ c, ¬ t.Repairs r c := by
  unfold repairingColumn?
  simp only
  rw [select_eq_none_iff, List.forall_mem_map]
  apply forall_congr'
  intro c
  rw [mem_filter_repairs_iff]
  -- Every number beats the lower end, so a candidate is always taken.
  have hbeats (value : Rat) : Extended.lt Extended.below (Extended.finite value) = true := rfl
  rw [hbeats]
  simp

theorem of_repairingColumn? (h : t.repairingColumn? r = some c) : t.Repairs r c := by
  obtain ⟨mark, hmem⟩ := mem_of_select_eq_some h
  obtain ⟨c', hc', heq⟩ := List.mem_map.1 hmem
  obtain ⟨rfl, -⟩ := Prod.mk.inj heq
  exact mem_filter_repairs_iff.1 hc'

/-! ## The ratio test -/

/-- The sign with which the entering variable moves. -/
def Entering.sign (entering : Entering) : Rat :=
  if entering.decreases then -1 else 1

theorem Entering.sign_cases (entering : Entering) : entering.sign = 1 ∨ entering.sign = -1 := by
  rw [Entering.sign]
  split
  · exact .inr rfl
  · exact .inl rfl

theorem Entering.sign_mul_self (entering : Entering) : entering.sign * entering.sign = 1 := by
  rcases entering.sign_cases with hsign | hsign
  · rw [hsign, one_mul]
  · rw [hsign, neg_one_mul, neg_neg]

/-- A row that the entering variable changes enough to count. -/
def Blocks (t : Tableau Rat) (entering : Entering) (r : Nat) : Prop :=
  t.IsRestrictedRow r ∧ t.precision ≤ |t.dictionary.entry r entering.column|

/-- A row whose variable is at its bound and would cross it. -/
def IsAtBound (t : Tableau Rat) (entering : Entering) (r : Nat) : Prop :=
  0 < entering.sign * t.dictionary.entry r entering.column ∧
    |t.dictionary.entry r 0| < t.precision

/-- How far the entering variable moves until a row reaches its bound. -/
def ratio (t : Tableau Rat) (entering : Entering) (r : Nat) : Rat :=
  entering.sign * t.dictionary.entry r 0 / t.dictionary.entry r entering.column

theorem ratio_eq : t.ratio entering r =
    t.dictionary.entry r 0 / (entering.sign * t.dictionary.entry r entering.column) := by
  rw [ratio]
  rcases entering.sign_cases with hsign | hsign
  · rw [hsign, one_mul, one_mul]
  · rw [hsign, neg_one_mul, neg_one_mul, neg_div, div_neg]

theorem mem_filter_blocks_iff :
    r ∈ (t.dictionary.rows.filter fun r =>
      !t.isFree (t.dictionary.basicAt r) &&
        !(Scalar.abs (t.dictionary.entry r entering.column) < t.precision : Bool)) ↔
      t.Blocks entering r := by
  rw [List.mem_filter, Bool.and_eq_true, Bool.not_eq_true', Bool.not_eq_true',
    decide_eq_false_iff_not, scalar_abs_eq, not_lt, ← and_assoc]
  exact Iff.rfl

theorem isAtBound_iff :
    (decide (0 < entering.sign * t.dictionary.entry r entering.column) &&
      decide (Scalar.abs (t.dictionary.entry r 0) < t.precision)) = true ↔
      t.IsAtBound entering r := by
  rw [Bool.and_eq_true, decide_eq_true_iff, decide_eq_true_iff, scalar_abs_eq]
  exact Iff.rfl

/-- The rows among which the smallest ratio decides. -/
def ratioCandidates (t : Tableau Rat) (entering : Entering) : List (Nat × Extended Rat) :=
  ((t.dictionary.rows.filter fun r =>
    !t.isFree (t.dictionary.basicAt r) &&
      !(Scalar.abs (t.dictionary.entry r entering.column) < t.precision : Bool)).filter
        fun r => t.precision < t.ratio entering r).map fun r => (r, .finite (t.ratio entering r))

theorem mem_ratioCandidates_iff {candidate : Nat × Extended Rat} :
    candidate ∈ t.ratioCandidates entering ↔
      ∃ r, t.Blocks entering r ∧ t.precision < t.ratio entering r ∧
        candidate = (r, .finite (t.ratio entering r)) := by
  rw [ratioCandidates, List.mem_map]
  apply exists_congr
  intro r
  rw [List.mem_filter, mem_filter_blocks_iff, decide_eq_true_iff, and_assoc, eq_comm]

/-- The ratio test takes a row at its bound if there is one. -/
theorem leavingRow?_cases (t : Tableau Rat) (entering : Entering) :
    (∃ r, t.leavingRow? entering = some r ∧ t.Blocks entering r ∧ t.IsAtBound entering r) ∨
      ((∀ r, t.Blocks entering r → ¬ t.IsAtBound entering r) ∧
        t.leavingRow? entering =
          select Extended.lt Extended.above (t.ratioCandidates entering)) := by
  unfold leavingRow?
  simp only
  split
  · next r hfind =>
    have hbound := List.find?_some hfind
    exact .inl ⟨r, rfl, mem_filter_blocks_iff.1 (List.mem_of_find?_eq_some hfind),
      isAtBound_iff.1 hbound⟩
  · next hfind =>
    refine .inr ⟨?_, rfl⟩
    intro r hr hbound
    exact List.find?_eq_none.1 hfind r (mem_filter_blocks_iff.2 hr) (isAtBound_iff.2 hbound)

theorem leavingRow?_eq_none_iff :
    t.leavingRow? entering = none ↔ ∀ r, t.Blocks entering r →
      ¬ t.IsAtBound entering r ∧ t.ratio entering r ≤ t.precision := by
  have hbeats (value : Rat) : Extended.lt (Extended.finite value) Extended.above = true := rfl
  constructor
  · intro hnone r hr
    rcases leavingRow?_cases t entering with ⟨r', hsome, -⟩ | ⟨hbound, hselect⟩
    · rw [hnone] at hsome
      exact absurd hsome (by simp)
    · refine ⟨hbound r hr, ?_⟩
      rw [hnone, eq_comm, select_eq_none_iff] at hselect
      by_contra hratio
      have hmem := mem_ratioCandidates_iff.2 ⟨r, hr, not_le.1 hratio, rfl⟩
      exact absurd (hselect _ hmem) (by simp [hbeats])
  · intro hrows
    rcases leavingRow?_cases t entering with ⟨r, -, hblocks, hbound⟩ | ⟨-, hselect⟩
    · exact absurd hbound (hrows r hblocks).1
    · rw [hselect, select_eq_none_iff]
      intro candidate hcandidate
      obtain ⟨r, hr, hratio, -⟩ := mem_ratioCandidates_iff.1 hcandidate
      exact absurd hratio (not_lt.2 (hrows r hr).2)

/-- The row with the smallest ratio above the precision. -/
structure HasSmallestRatio (t : Tableau Rat) (entering : Entering) (r : Nat) : Prop where
  none_at_bound : ∀ i, t.Blocks entering i → ¬ t.IsAtBound entering i
  ratio_large : t.precision < t.ratio entering r
  ratio_le : ∀ i, t.Blocks entering i → t.precision < t.ratio entering i →
    t.ratio entering r ≤ t.ratio entering i

theorem of_leavingRow? (h : t.leavingRow? entering = some r) :
    t.Blocks entering r ∧ (t.IsAtBound entering r ∨ t.HasSmallestRatio entering r) := by
  rcases leavingRow?_cases t entering with ⟨r', hsome, hblocks, hbound⟩ | ⟨hnone, hselect⟩
  · rw [h, Option.some.injEq] at hsome
    rw [hsome]
    exact ⟨hblocks, .inl hbound⟩
  · rw [h, eq_comm] at hselect
    obtain ⟨mark, hmem, -, hbest⟩ :=
      select_eq_some_best hselect Extended.lt_irrefl Extended.lt_trans
    obtain ⟨r', hblocks, hratio, heq⟩ := mem_ratioCandidates_iff.1 hmem
    obtain ⟨rfl, rfl⟩ := Prod.mk.inj heq
    refine ⟨hblocks, .inr ⟨hnone, hratio, ?_⟩⟩
    intro i hi hi'
    have hother := hbest _ (mem_ratioCandidates_iff.2 ⟨i, hi, hi', rfl⟩)
    simpa [Extended.lt] using hother

/-! ## The entering column -/

theorem amount_promise (t : Tableau Rat) (reducedCosts : Array Rat) (c : Nat) :
    (t.promise reducedCosts c).2 =
      (t.promise reducedCosts c).1.sign * Dictionary.entryOf reducedCosts c := by
  unfold promise Entering.sign
  simp only
  split
  · exact (neg_one_mul _).symm
  · exact (one_mul _).symm

theorem isFree_of_decreases {reducedCosts : Array Rat}
    (h : (t.promise reducedCosts c).1.decreases = true) :
    t.isFree (t.dictionary.nonBasicAt c) = true := by
  unfold promise at h
  simp only at h
  split at h
  · rename_i hfree
    exact (Bool.and_eq_true_iff.1 hfree).1
  · exact absurd h (by simp)

/-- No column promises anything: the costs of restricted variables are at most zero and
those of free variables are zero, up to the precision. -/
theorem mostPromising?_eq_none_iff {reducedCosts : Array Rat} {columns : List Nat} :
    t.mostPromising? reducedCosts columns = none ↔ ∀ c ∈ columns,
      Dictionary.entryOf reducedCosts c ≤ t.precision ∧
        (t.isFree (t.dictionary.nonBasicAt c) = true →
          -t.precision ≤ Dictionary.entryOf reducedCosts c ∨
            0 ≤ Dictionary.entryOf reducedCosts c) := by
  unfold mostPromising?
  rw [select_eq_none_iff, List.forall_mem_map]
  apply forall₂_congr
  intro c _
  unfold promise
  simp only
  split
  · rename_i hfree
    rw [Bool.and_eq_true, decide_eq_true_iff] at hfree
    rw [decide_eq_false_iff_not, not_lt]
    constructor
    · intro hamount
      exact ⟨by linarith, fun _ => .inl (by linarith)⟩
    · intro hbounds
      rcases hbounds.2 hfree.1 with hlower | hlower <;> linarith
  · rename_i hother
    rw [Bool.and_eq_true, decide_eq_true_iff, not_and, not_lt] at hother
    rw [decide_eq_false_iff_not, not_lt]
    constructor
    · intro hamount
      exact ⟨hamount, fun hfree => .inr (hother hfree)⟩
    · intro hbounds
      exact hbounds.1

/-- The entering column improves an objective in a direction open to its variable. -/
structure Promises (t : Tableau Rat) (reducedCosts : Array Rat) (entering : Entering) : Prop where
  improves : t.precision < entering.sign * Dictionary.entryOf reducedCosts entering.column
  free_of_decreases : entering.decreases = true →
    t.isFree (t.dictionary.nonBasicAt entering.column) = true

theorem of_mostPromising? {reducedCosts : Array Rat} {columns : List Nat}
    (h : t.mostPromising? reducedCosts columns = some entering) :
    t.Promises reducedCosts entering := by
  obtain ⟨mark, hmem, hbeats, -⟩ := select_eq_some_best h (by simp) (by simp; grind)
  obtain ⟨c, -, heq⟩ := List.mem_map.1 hmem
  have hentering : entering = (t.promise reducedCosts c).1 := by rw [heq]
  have hmark : mark = (t.promise reducedCosts c).2 := by rw [heq]
  have hcolumn : entering.column = c := by rw [hentering, column_promise]
  constructor
  · rw [hmark, amount_promise, ← hentering] at hbeats
    rw [hcolumn]
    simpa using hbeats
  · intro hdecreases
    rw [hentering] at hdecreases
    rw [hcolumn]
    exact isFree_of_decreases hdecreases

/-! ## Pivots -/

/-- No phase pivots on a zero. -/
theorem entry_ne_zero_of_mem_simplexPivots {effort : Effort} (hprecision : 0 ≤ t.precision)
    {event : PivotEvent Rat} (hevent : event ∈ simplexPivots effort t) :
    event.before.dictionary.entry event.row event.column ≠ 0 := by
  obtain ⟨hstep, hframe⟩ := mem_simplexPivots hevent
  have hbefore : 0 ≤ event.before.precision := by
    rw [hframe.precision]
    exact hprecision
  rcases hstep with hone | htwo
  · have hrepairs := of_repairingColumn? (phaseOneStep_eq_pivot_iff.1 hone).2
    exact abs_pos.1 (lt_of_le_of_lt hbefore hrepairs.entry_large)
  · obtain ⟨entering, -, hcolumn, hleaving⟩ := phaseTwoStep_eq_pivot_iff.1 htwo
    intro hzero
    rw [← hcolumn] at hzero
    rcases (of_leavingRow? hleaving).2 with hbound | hratio
    · have hpos := hbound.1
      rw [hzero, mul_zero] at hpos
      exact lt_irrefl 0 hpos
    · have hpos := hratio.ratio_large
      rw [ratio, hzero, div_zero] at hpos
      exact absurd hpos (not_lt.2 hbefore)

end Tableau

end MixedInteger
