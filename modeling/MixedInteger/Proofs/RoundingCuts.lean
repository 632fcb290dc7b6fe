import Mathlib.Algebra.BigOperators.Field
import Mathlib.Data.Rat.Floor
import MixedInteger.Proofs.Optimality
import MixedInteger.Tableau.Cut

/-!
# Rounding cuts hold at integral points

Each term of a row splits into a whole part, a part that exceeds it and a part that falls
short of it.  The rounded row and the fractional row keep the three parts with other
weights, so both cuts reduce to one fact about the sums of the parts: the excess and the
shortfall differ from the fractional part of the right-hand side by a whole number.

Only the equation of the row is used, so the cuts hold at every integral solution of that
one row, whatever the rest of the tableau is; at the basic solution they fail.
-/

namespace MixedInteger

/-- A number without a fractional part. -/
def IsWhole (value : Rat) : Prop :=
  ∃ n : ℤ, value = n

theorem isWhole_zero : IsWhole 0 :=
  ⟨0, by simp⟩

theorem IsWhole.add {left right : Rat} (hleft : IsWhole left) (hright : IsWhole right) :
    IsWhole (left + right) := by
  obtain ⟨m, rfl⟩ := hleft
  obtain ⟨n, rfl⟩ := hright
  exact ⟨m + n, by push_cast; rfl⟩

theorem IsWhole.sub {left right : Rat} (hleft : IsWhole left) (hright : IsWhole right) :
    IsWhole (left - right) := by
  obtain ⟨m, rfl⟩ := hleft
  obtain ⟨n, rfl⟩ := hright
  exact ⟨m - n, by push_cast; rfl⟩

theorem isWhole_sum {ι : Type} {s : Finset ι} {f : ι → Rat} (h : ∀ i ∈ s, IsWhole (f i)) :
    IsWhole (∑ i ∈ s, f i) := by
  classical
  induction s using Finset.induction_on with
  | empty => exact isWhole_zero
  | insert i s hi ih =>
    rw [Finset.sum_insert hi]
    exact (h i (Finset.mem_insert_self i s)).add
      (ih fun j hj => h j (Finset.mem_insert_of_mem hj))

theorem isWhole_floor (value : Rat) : IsWhole (Scalar.floor value) :=
  ⟨value.floor, rfl⟩

theorem floor_le (value : Rat) : Scalar.floor value ≤ value :=
  Rat.floor_le value

theorem lt_floor_add_one (value : Rat) : value < Scalar.floor value + 1 := by
  have hlt := Rat.lt_floor_add_one value
  push_cast at hlt
  exact hlt

/-! ## One term -/

/-- A term of a row, with what the two cuts make of it, in parts: a whole number, an excess
over it and a shortfall below it. -/
structure SplitsInto (fraction term rounded fractional whole excess shortfall : Rat) : Prop where
  whole_isWhole : IsWhole whole
  excess_nonneg : 0 ≤ excess
  shortfall_nonneg : 0 ≤ shortfall
  term_eq : term = whole + excess - shortfall
  rounded_eq : rounded = whole - shortfall / (1 - fraction)
  fractional_eq : fractional = -(excess + shortfall * fraction / (1 - fraction))

section Terms

variable {fraction entry value : Rat}

/-- The term of an integer variable. -/
theorem splitsInto_of_integer (hfraction : fraction < 1) (hvalue : IsWhole value)
    (hnonneg : 0 ≤ value) :
    ∃ whole excess shortfall, SplitsInto fraction (entry * value)
      (Tableau.roundedCoefficient true fraction entry * value)
      (Tableau.fractionalCoefficient true fraction entry * value) whole excess shortfall := by
  have hrest : 1 - fraction ≠ 0 := by linarith
  have hwhole (n : ℤ) : IsWhole ((Scalar.floor entry + n) * value) := by
    obtain ⟨m, hm⟩ := isWhole_floor entry
    obtain ⟨k, rfl⟩ := hvalue
    exact ⟨(m + n) * k, by rw [hm]; push_cast; rfl⟩
  have hlow := floor_le entry
  have hhigh := lt_floor_add_one entry
  rw [Tableau.roundedCoefficient, Tableau.fractionalCoefficient, if_pos rfl, if_pos rfl,
    Scalar.positivePart]
  dsimp only
  generalize Scalar.floor entry = n at hlow hhigh hwhole ⊢
  by_cases hsmall : entry - n ≤ fraction
  · rw [if_pos hsmall, if_neg (by linarith)]
    refine ⟨n * value, (entry - n) * value, 0, ⟨?_, ?_, le_refl 0, ?_, ?_, ?_⟩⟩
    · simpa using hwhole 0
    · exact mul_nonneg (by linarith) hnonneg
    · ring
    · ring
    · ring
  · rw [if_neg hsmall, if_pos (by linarith)]
    refine ⟨(n + 1) * value, 0, (1 - (entry - n)) * value, ⟨?_, le_refl 0, ?_, ?_, ?_, ?_⟩⟩
    · simpa using hwhole 1
    · exact mul_nonneg (by linarith) hnonneg
    · ring
    · field_simp
      ring
    · field_simp
      ring

/-- The term of a variable that may be fractional. -/
theorem splitsInto_of_continuous (hfraction : fraction < 1) (hnonneg : 0 ≤ value) :
    ∃ whole excess shortfall, SplitsInto fraction (entry * value)
      (Tableau.roundedCoefficient false fraction entry * value)
      (Tableau.fractionalCoefficient false fraction entry * value) whole excess shortfall := by
  have hrest : 0 < 1 - fraction := by linarith
  have hne : 1 - fraction ≠ 0 := ne_of_gt hrest
  rw [Tableau.roundedCoefficient, Tableau.fractionalCoefficient, if_neg (by simp),
    if_neg (by simp), Scalar.negativePart]
  by_cases hentry : 0 ≤ entry
  · rw [if_pos hentry, if_neg (not_lt.2 (div_nonneg hentry (le_of_lt hrest)))]
    refine ⟨0, entry * value, 0, ⟨isWhole_zero, mul_nonneg hentry hnonneg, le_refl 0, ?_, ?_, ?_⟩⟩
      <;> ring
  · have hnegative : entry < 0 := not_le.1 hentry
    rw [if_neg hentry, if_pos (div_neg_of_neg_of_pos hnegative hrest)]
    refine ⟨0, 0, -(entry * value), ⟨isWhole_zero, le_refl 0, ?_, ?_, ?_, ?_⟩⟩
    · exact neg_nonneg.2 (mul_nonpos_of_nonpos_of_nonneg (le_of_lt hnegative) hnonneg)
    · ring
    · field_simp
      ring
    · field_simp
      ring

theorem floor_zero : Scalar.floor (0 : Rat) = 0 := by
  decide +kernel

theorem roundedCoefficient_zero (hfraction : 0 < fraction) (isInteger : Bool) :
    Tableau.roundedCoefficient isInteger fraction 0 = 0 := by
  cases isInteger with
  | true =>
    simp only [Tableau.roundedCoefficient, if_true, floor_zero, Scalar.positivePart]
    rw [if_neg (by linarith)]
    ring
  | false => simp [Tableau.roundedCoefficient, Scalar.negativePart]

theorem fractionalCoefficient_zero (hfraction : 0 < fraction) (isInteger : Bool) :
    Tableau.fractionalCoefficient isInteger fraction 0 = 0 := by
  cases isInteger with
  | true =>
    simp only [Tableau.fractionalCoefficient, if_true, floor_zero]
    rw [if_pos (by linarith)]
    ring
  | false => simp [Tableau.fractionalCoefficient]

/-- A term that is not there. -/
theorem splitsInto_of_zero (hfraction : 0 < fraction) (isInteger : Bool) :
    SplitsInto fraction (0 * value) (Tableau.roundedCoefficient isInteger fraction 0 * value)
      (Tableau.fractionalCoefficient isInteger fraction 0 * value) 0 0 0 := by
  rw [roundedCoefficient_zero hfraction, fractionalCoefficient_zero hfraction]
  refine ⟨isWhole_zero, le_refl 0, le_refl 0, ?_, ?_, ?_⟩ <;> ring

end Terms

/-! ## A whole row -/

/-- Where the excess over the shortfall is whole apart from the fraction, either it makes up
for the fraction, or the shortfall is at least what is missing to the next whole number. -/
theorem cuts_of_isWhole {fraction excess shortfall : Rat} (hpos : 0 < fraction)
    (hlt : fraction < 1) (hexcess : 0 ≤ excess)
    (hshortfall : 0 ≤ shortfall) (hwhole : IsWhole (excess - shortfall - fraction)) :
    0 ≤ excess - shortfall - fraction + shortfall / (1 - fraction) ∧
      fraction ≤ excess + shortfall * fraction / (1 - fraction) := by
  have hrest : 0 < 1 - fraction := by linarith
  obtain ⟨n, hn⟩ := hwhole
  rcases le_or_gt 0 n with hnonneg | hneg
  · have hnonneg' : (0 : Rat) ≤ n := by exact_mod_cast hnonneg
    have hrounded := div_nonneg hshortfall (le_of_lt hrest)
    have hfractional := div_nonneg (mul_nonneg hshortfall (le_of_lt hpos)) (le_of_lt hrest)
    exact ⟨by linarith, by linarith⟩
  · have hle : (n : Rat) ≤ -1 := by exact_mod_cast Int.le_sub_one_of_lt hneg
    constructor
    · have hrounded : -(n : Rat) ≤ shortfall / (1 - fraction) := by
        rw [le_div_iff₀ hrest]
        nlinarith
      linarith
    · have hfractional : fraction ≤ shortfall * fraction / (1 - fraction) := by
        rw [le_div_iff₀ hrest]
        nlinarith
      linarith

/-- Both cuts hold where every term splits. -/
theorem cuts_of_splitsInto {columns : Finset Nat} {rhs fraction basic : Rat}
    {term rounded fractional : Nat → Rat} (hpos : 0 < fraction) (hlt : fraction < 1)
    (hrhs : rhs = Scalar.floor rhs + fraction) (hbasic : IsWhole basic)
    (hrow : basic = rhs - ∑ c ∈ columns, term c)
    (hsplit : ∀ c ∈ columns, ∃ whole excess shortfall,
      SplitsInto fraction (term c) (rounded c) (fractional c) whole excess shortfall) :
    basic + ∑ c ∈ columns, rounded c ≤ Scalar.floor rhs ∧
      fraction ≤ -∑ c ∈ columns, fractional c := by
  choose! whole excess shortfall hparts using hsplit
  have hterms : ∑ c ∈ columns, term c =
      ∑ c ∈ columns, whole c + ∑ c ∈ columns, excess c - ∑ c ∈ columns, shortfall c := by
    rw [← Finset.sum_add_distrib, ← Finset.sum_sub_distrib]
    exact Finset.sum_congr rfl fun c hc => (hparts c hc).term_eq
  have hrounded : ∑ c ∈ columns, rounded c =
      ∑ c ∈ columns, whole c - (∑ c ∈ columns, shortfall c) / (1 - fraction) := by
    rw [Finset.sum_div, ← Finset.sum_sub_distrib]
    exact Finset.sum_congr rfl fun c hc => (hparts c hc).rounded_eq
  have hfractional : ∑ c ∈ columns, fractional c =
      -(∑ c ∈ columns, excess c + (∑ c ∈ columns, shortfall c) * fraction / (1 - fraction)) := by
    rw [Finset.sum_mul, Finset.sum_div, ← Finset.sum_add_distrib, ← Finset.sum_neg_distrib]
    exact Finset.sum_congr rfl fun c hc => (hparts c hc).fractional_eq
  have hexcess := Finset.sum_nonneg fun c hc => (hparts c hc).excess_nonneg
  have hshortfall := Finset.sum_nonneg fun c hc => (hparts c hc).shortfall_nonneg
  have hwhole := isWhole_sum fun c hc => (hparts c hc).whole_isWhole
  -- What the parts beyond the whole ones amount to is the fraction up to a whole number.
  have hmissing : ∑ c ∈ columns, excess c - ∑ c ∈ columns, shortfall c - fraction =
      Scalar.floor rhs - basic - ∑ c ∈ columns, whole c := by
    linarith
  obtain ⟨hround, hfraction⟩ := cuts_of_isWhole hpos hlt hexcess hshortfall (by
    rw [hmissing]
    exact ((isWhole_floor rhs).sub hbasic).sub hwhole)
  exact ⟨by linarith, by linarith⟩

/-! ## Rounding cuts of a tableau -/

namespace Tableau

variable {t : Tableau Rat} {x : Nat → Rat} {r c : Nat} {fraction : Rat}

/-- A feasible assignment whose integer variables are whole. -/
structure IsIntegralPoint (t : Tableau Rat) (x : Nat → Rat) : Prop where
  feasible : t.IsFeasiblePoint x
  whole : ∀ index, t.dictionary.HasVariable index → t.isInteger (some index) = true →
    IsWhole (x index)

theorem entryOf_mapIdx {row : Array Rat} (change : Nat → Rat → Rat) (hc : c < row.size) :
    Dictionary.entryOf (row.mapIdx change) c = change c (Dictionary.entryOf row c) := by
  simp [Dictionary.entryOf, Array.getD_eq_getD_getElem?, hc]

/-- A row from which rounding cuts are derived. -/
theorem of_cutFraction? (hprecision : 0 < t.precision) (h : t.cutFraction? r = some fraction) :
    r ∈ t.dictionary.rows ∧ t.isInteger (t.dictionary.basicAt r) = true ∧
      t.dependsOnFree r = false ∧ 0 < fraction ∧ fraction < 1 ∧
      t.dictionary.entry r 0 = Scalar.floor (t.dictionary.entry r 0) + fraction := by
  have hheight := lt_height_of_cutFraction? h
  unfold cutFraction? at h
  split at h
  · exact absurd h (by simp)
  next hguard =>
  simp only [Bool.or_eq_true, beq_iff_eq, Bool.not_eq_true', not_or, Bool.not_eq_false,
    Bool.not_eq_true] at hguard
  obtain ⟨⟨hr, hinteger⟩, hfree⟩ := hguard
  unfold fractionalPart? at h
  dsimp only at h
  split at h
  · exact absurd h (by simp)
  next hrange =>
  simp only [Bool.or_eq_true, decide_eq_true_eq, not_or, not_lt] at hrange
  rw [Option.some.injEq] at h
  rw [h] at hrange
  refine ⟨Dictionary.mem_rows.2 ⟨Nat.pos_of_ne_zero hr, hheight⟩, hinteger, hfree, ?_, ?_, ?_⟩
  · linarith [hrange.1]
  · linarith [hrange.2]
  · rw [← h]
    ring

/-- An assignment that satisfies the equation of a row, is whole at the integer variables of
the row and not negative at its restricted non-basic variables. -/
structure IsIntegralSolution (t : Tableau Rat) (r : Nat) (x : Nat → Rat) : Prop where
  equation : ∀ index, t.dictionary.basicAt r = some index →
    x index = t.dictionary.rowValue (t.dictionary.row r) x
  basic_whole : ∀ index, t.dictionary.basicAt r = some index → IsWhole (x index)
  nonBasic_whole : ∀ c ∈ t.dictionary.columns,
    t.isInteger (t.dictionary.nonBasicAt c) = true → IsWhole (x (t.dictionary.nameAt c))
  nonneg : ∀ c ∈ t.dictionary.columns,
    t.isFree (t.dictionary.nonBasicAt c) = false → 0 ≤ x (t.dictionary.nameAt c)

/-- The free variables of a row have no entry in it or one that counts. -/
def HasClearFreeEntries (t : Tableau Rat) (r : Nat) : Prop :=
  ∀ c ∈ t.dictionary.columns, t.isFree (t.dictionary.nonBasicAt c) = true →
    t.dictionary.entry r c = 0 ∨ t.precision < |t.dictionary.entry r c|

instance (t : Tableau Rat) (r : Nat) : Decidable (t.HasClearFreeEntries r) := by
  unfold HasClearFreeEntries
  infer_instance

theorem IsIntegralPoint.isIntegralSolution (h : t.dictionary.IsConsistent)
    (hx : t.IsIntegralPoint x) (hr : r ∈ t.dictionary.rows)
    (hinteger : t.isInteger (t.dictionary.basicAt r) = true) : t.IsIntegralSolution r x where
  equation index hindex := hx.feasible.1 r hr index hindex
  basic_whole index hindex := hx.whole index (.inl ⟨r, hr, hindex⟩) (hindex ▸ hinteger)
  nonBasic_whole c hc hcolumn := by
    obtain ⟨index, hindex⟩ := h.isNamed.exists_nonBasicAt hc
    rw [Dictionary.IsNamed.nameAt_eq hindex]
    exact hx.whole index (.inr ⟨c, hc, hindex⟩) (hindex ▸ hcolumn)
  nonneg c hc hcolumn := by
    obtain ⟨index, hindex⟩ := h.isNamed.exists_nonBasicAt hc
    rw [Dictionary.IsNamed.nameAt_eq hindex]
    exact hx.feasible.2 index (.inr ⟨c, hc, hindex⟩) (hindex ▸ hcolumn)

/-- At an integral solution of a row that depends on no free variable, every term splits. -/
theorem splitsInto_entry (hclear : t.HasClearFreeEntries r) (hfree : t.dependsOnFree r = false)
    (hpos : 0 < fraction) (hlt : fraction < 1) (hx : t.IsIntegralSolution r x)
    {isInteger : Bool} (hc : c ∈ t.dictionary.columns)
    (hinteger : isInteger = true → t.isInteger (t.dictionary.nonBasicAt c) = true) :
    ∃ whole excess shortfall, SplitsInto fraction
      (t.dictionary.entry r c * x (t.dictionary.nameAt c))
      (roundedCoefficient isInteger fraction (t.dictionary.entry r c) *
        x (t.dictionary.nameAt c))
      (fractionalCoefficient isInteger fraction (t.dictionary.entry r c) *
        x (t.dictionary.nameAt c)) whole excess shortfall := by
  cases hcolumn : t.isFree (t.dictionary.nonBasicAt c) with
  | true =>
    have hzero : t.dictionary.entry r c = 0 := by
      have hsmall := List.any_eq_false.1 hfree c hc
      rw [scalar_abs_eq, hcolumn] at hsmall
      exact (hclear c hc hcolumn).resolve_right (by simpa using hsmall)
    rw [hzero]
    exact ⟨0, 0, 0, splitsInto_of_zero hpos _⟩
  | false =>
    have hnonneg := hx.nonneg c hc hcolumn
    cases isInteger with
    | true => exact splitsInto_of_integer hlt (hx.nonBasic_whole c hc (hinteger rfl)) hnonneg
    | false => exact splitsInto_of_continuous hlt hnonneg

/-- Both cuts of a row hold at its integral solutions.  Integer columns may also be treated
as continuous ones. -/
theorem cuts_of_isIntegralSolution (hprecision : 0 < t.precision)
    (hclear : t.HasClearFreeEntries r) (hcut : t.cutFraction? r = some fraction)
    (hx : t.IsIntegralSolution r x) {kinds : Nat → Bool}
    (hkinds : ∀ c ∈ t.dictionary.columns,
      kinds c = true → t.isInteger (t.dictionary.nonBasicAt c) = true) :
    t.dictionary.rowValue (t.dictionary.row r) x +
        ∑ c ∈ Finset.Ico 1 t.dictionary.width,
          roundedCoefficient (kinds c) fraction (t.dictionary.entry r c) *
            x (t.dictionary.nameAt c) ≤ Scalar.floor (t.dictionary.entry r 0) ∧
      fraction ≤ -∑ c ∈ Finset.Ico 1 t.dictionary.width,
        fractionalCoefficient (kinds c) fraction (t.dictionary.entry r c) *
          x (t.dictionary.nameAt c) := by
  obtain ⟨-, hinteger, hfree, hpos, hlt, hrhs⟩ := of_cutFraction? hprecision hcut
  cases hbasic : t.dictionary.basicAt r with
  | none =>
    rw [hbasic] at hinteger
    exact absurd hinteger (by simp [isInteger])
  | some index =>
    have hwhole := hx.basic_whole index hbasic
    rw [hx.equation index hbasic] at hwhole
    apply cuts_of_splitsInto hpos hlt hrhs hwhole rfl
    intro c hc
    have hcolumn := Dictionary.mem_columns_iff_mem_Ico.2 hc
    exact splitsInto_entry hclear hfree hpos hlt hx hcolumn (hkinds c hcolumn)

/-- A row with a fractional right-hand side has entries. -/
theorem size_pos_of_cutFraction? (hprecision : 0 < t.precision)
    (hcut : t.cutFraction? r = some fraction) : 0 < (t.dictionary.row r).size := by
  obtain ⟨-, -, -, hpos, -, hrhs⟩ := of_cutFraction? hprecision hcut
  apply Nat.pos_of_ne_zero
  intro hempty
  have hzero : t.dictionary.entry r 0 = 0 := Dictionary.entryOf_of_size_le (by omega)
  rw [hzero, floor_zero] at hrhs
  linarith

/-- Where a change keeps zeros it may be read off beyond the end of a row as well. -/
theorem entryOf_mapIdx_of_zero {row : Array Rat} {change : Nat → Rat → Rat}
    (hzero : change c 0 = 0) :
    Dictionary.entryOf (row.mapIdx change) c = change c (Dictionary.entryOf row c) := by
  rcases Nat.lt_or_ge c row.size with hc | hc
  · exact entryOf_mapIdx change hc
  · rw [Dictionary.entryOf_of_size_le hc, hzero, Dictionary.entryOf_of_size_le]
    rwa [Array.size_mapIdx]

theorem rowValue_roundedRow (hpos : 0 < fraction) (hsize : 0 < (t.dictionary.row r).size)
    (x : Nat → Rat) :
    t.dictionary.rowValue (t.roundedRow r fraction) x =
      Scalar.floor (t.dictionary.entry r 0) - t.dictionary.entry r 0 -
        (∑ c ∈ Finset.Ico 1 t.dictionary.width,
            roundedCoefficient (t.isInteger (t.dictionary.nonBasicAt c)) fraction
              (t.dictionary.entry r c) * x (t.dictionary.nameAt c) -
          ∑ c ∈ Finset.Ico 1 t.dictionary.width,
            t.dictionary.entry r c * x (t.dictionary.nameAt c)) := by
  rw [Dictionary.rowValue, ← Finset.sum_sub_distrib]
  congr 1
  · exact entryOf_mapIdx _ hsize
  · apply Finset.sum_congr rfl
    intro c hc
    have hne : ¬ (c == 0) = true := by
      rw [beq_iff_eq]
      exact Nat.ne_of_gt (Finset.mem_Ico.1 hc).1
    rw [roundedRow, entryOf_mapIdx_of_zero, if_neg hne, sub_mul]
    · rfl
    · rw [if_neg hne, roundedCoefficient_zero hpos, sub_zero]

theorem rowValue_fractionalRow (hpos : 0 < fraction) (hsize : 0 < (t.dictionary.row r).size)
    (x : Nat → Rat) :
    t.dictionary.rowValue (t.fractionalRow r fraction) x =
      -fraction - ∑ c ∈ Finset.Ico 1 t.dictionary.width,
        fractionalCoefficient (t.isInteger (t.dictionary.nonBasicAt c)) fraction
          (t.dictionary.entry r c) * x (t.dictionary.nameAt c) := by
  rw [Dictionary.rowValue]
  congr 1
  · exact entryOf_mapIdx _ hsize
  · apply Finset.sum_congr rfl
    intro c hc
    have hne : ¬ (c == 0) = true := by
      rw [beq_iff_eq]
      exact Nat.ne_of_gt (Finset.mem_Ico.1 hc).1
    rw [fractionalRow, entryOf_mapIdx_of_zero, if_neg hne]
    · rfl
    · rw [if_neg hne, fractionalCoefficient_zero hpos]

/-- The first rounding cut of a row holds at its integral solutions. -/
theorem roundedRow_nonneg (hprecision : 0 < t.precision) (hclear : t.HasClearFreeEntries r)
    (hcut : t.cutFraction? r = some fraction) (hx : t.IsIntegralSolution r x) :
    0 ≤ t.dictionary.rowValue (t.roundedRow r fraction) x := by
  have hpos := (of_cutFraction? hprecision hcut).2.2.2.1
  have hrounded := (cuts_of_isIntegralSolution hprecision hclear hcut hx
    fun _ _ hkind => hkind).1
  change t.dictionary.entry r 0 - ∑ c ∈ Finset.Ico 1 t.dictionary.width,
    t.dictionary.entry r c * x (t.dictionary.nameAt c) + _ ≤ _ at hrounded
  rw [rowValue_roundedRow hpos (size_pos_of_cutFraction? hprecision hcut)]
  linarith

/-- The second rounding cut of a row holds at its integral solutions, also where it is
derived from a tableau that shares the row and has no more integer variables. -/
theorem fractionalRow_nonneg {t' : Tableau Rat} (hprecision : 0 < t.precision)
    (hclear : t.HasClearFreeEntries r) (hcut : t.cutFraction? r = some fraction)
    (hx : t.IsIntegralSolution r x) (hrow : t'.dictionary.row r = t.dictionary.row r)
    (hnonBasic : t'.dictionary.nonBasic = t.dictionary.nonBasic)
    (hkinds : ∀ index, t'.isInteger index = true → t.isInteger index = true) :
    0 ≤ t.dictionary.rowValue (t'.fractionalRow r fraction) x := by
  have hpos := (of_cutFraction? hprecision hcut).2.2.2.1
  have hsize := size_pos_of_cutFraction? hprecision hcut
  rw [← hrow] at hsize
  have hfractional := (cuts_of_isIntegralSolution hprecision hclear hcut hx
    fun c _ hkind => hkinds (t.dictionary.nonBasicAt c) hkind).2
  have hvalue := rowValue_fractionalRow (t := t') hpos hsize x
  simp only [Dictionary.rowValue, Dictionary.entry, Dictionary.width, Dictionary.nameAt,
    Dictionary.nonBasicAt, hrow, hnonBasic] at hvalue hfractional ⊢
  linarith

/-- Both rounding cuts of a row hold at all integral points. -/
theorem roundingRows_nonneg (h : t.dictionary.IsConsistent) (hprecision : 0 < t.precision)
    (hclear : ∀ c, t.IsClear (t.dictionary.entry r c)) (hcut : t.cutFraction? r = some fraction)
    (hx : t.IsIntegralPoint x) :
    0 ≤ t.dictionary.rowValue (t.roundedRow r fraction) x ∧
      0 ≤ t.dictionary.rowValue (t.fractionalRow r fraction) x := by
  obtain ⟨hr, hinteger, -⟩ := of_cutFraction? hprecision hcut
  have hfree : t.HasClearFreeEntries r := fun c _ _ => (hclear c).imp_right And.left
  have hsolution := hx.isIntegralSolution h hr hinteger
  exact ⟨roundedRow_nonneg hprecision hfree hcut hsolution,
    fractionalRow_nonneg hprecision hfree hcut hsolution rfl rfl fun _ hkind => hkind⟩

/-! ## Separation -/

/-- A row that holds at the integral solutions of another row and fails at the basic
solution, by the fractional part of the value that the other row gives there. -/
structure Separates (t : Tableau Rat) (r : Nat) (cut : Array Rat) : Prop where
  valid : ∀ x, t.IsIntegralSolution r x → 0 ≤ t.dictionary.rowValue cut x
  violation : t.dictionary.rowValue cut (fun _ => 0) =
    -(t.dictionary.entry r 0 - Scalar.floor (t.dictionary.entry r 0))
  fails : t.dictionary.rowValue cut (fun _ => 0) < 0

theorem rowValue_zero (d : Dictionary Rat) (row : Array Rat) :
    d.rowValue row (fun _ => 0) = Dictionary.entryOf row 0 := by
  simp [Dictionary.rowValue]

theorem fraction_eq (hprecision : 0 < t.precision) (hcut : t.cutFraction? r = some fraction) :
    fraction = t.dictionary.entry r 0 - Scalar.floor (t.dictionary.entry r 0) := by
  obtain ⟨-, -, -, -, -, hrhs⟩ := of_cutFraction? hprecision hcut
  linarith

theorem separates_roundedRow (hprecision : 0 < t.precision) (hclear : t.HasClearFreeEntries r)
    (hcut : t.cutFraction? r = some fraction) : t.Separates r (t.roundedRow r fraction) := by
  have hpos := (of_cutFraction? hprecision hcut).2.2.2.1
  have hviolation : t.dictionary.rowValue (t.roundedRow r fraction) (fun _ => 0) = -fraction := by
    rw [rowValue_zero, roundedRow, entryOf_mapIdx _ (size_pos_of_cutFraction? hprecision hcut),
      fraction_eq hprecision hcut]
    exact (neg_sub _ _).symm
  refine ⟨fun x hx => roundedRow_nonneg hprecision hclear hcut hx, ?_, ?_⟩
  · rw [hviolation, fraction_eq hprecision hcut]
  · rw [hviolation]
    linarith

theorem separates_fractionalRow {t' : Tableau Rat} (hprecision : 0 < t.precision)
    (hclear : t.HasClearFreeEntries r) (hcut : t.cutFraction? r = some fraction)
    (hrow : t'.dictionary.row r = t.dictionary.row r)
    (hnonBasic : t'.dictionary.nonBasic = t.dictionary.nonBasic)
    (hkinds : ∀ index, t'.isInteger index = true → t.isInteger index = true) :
    t.Separates r (t'.fractionalRow r fraction) := by
  have hpos := (of_cutFraction? hprecision hcut).2.2.2.1
  have hviolation : t.dictionary.rowValue (t'.fractionalRow r fraction) (fun _ => 0) =
      -fraction := by
    have hsize := size_pos_of_cutFraction? hprecision hcut
    rw [rowValue_zero, fractionalRow, entryOf_mapIdx _ (hrow ▸ hsize)]
    rfl
  refine ⟨fun x hx => fractionalRow_nonneg hprecision hclear hcut hx hrow hnonBasic hkinds, ?_, ?_⟩
  · rw [hviolation, fraction_eq hprecision hcut]
  · rw [hviolation]
    linarith

/-- The slack of a new row is not an integer variable. -/
theorem isInteger_of_pushCutRow {row : Array Rat} {index : Option Nat}
    (h : (t.pushCutRow row).isInteger index = true) : t.isInteger index = true := by
  cases index with
  | none => exact h
  | some index =>
    rw [isInteger_pushCutRow] at h
    split at h
    · exact absurd h Bool.false_ne_true
    · exact h

/-- What a cut pushes is derived with the fractional part of the right-hand side. -/
theorem addDerivedCut_of_added {derive : Tableau Rat → Nat → Rat → Array Rat}
    (hprecision : 0 < t.precision) (hadded : (t.addDerivedCut derive r).2 = true) :
    ∃ fraction, t.cutFraction? r = some fraction ∧
      fraction = t.dictionary.entry r 0 - Scalar.floor (t.dictionary.entry r 0) ∧
        (t.addDerivedCut derive r).1 = t.pushCutRow (derive t r fraction) := by
  rcases addDerivedCut_cases derive t r with ⟨-, hcut⟩ | ⟨fraction, hfraction, hcut⟩
  · rw [hcut] at hadded
    exact absurd hadded (by simp)
  · rw [hcut]
    exact ⟨fraction, hfraction, fraction_eq hprecision hfraction, rfl⟩

/-- The rows that the attempt to add a cut pushes: one if the row allows it, else none. -/
theorem exists_derived_cuts (derive : Tableau Rat → Nat → Rat → Array Rat) (t : Tableau Rat)
    (r : Nat) :
    ∃ cuts : List (Array Rat),
      (t.addDerivedCut derive r).1.dictionary.matrix = t.dictionary.matrix ++ cuts.toArray ∧
        (t.addDerivedCut derive r).2.toNat = cuts.length ∧
          ∀ cut ∈ cuts, ∃ fraction, t.cutFraction? r = some fraction ∧
            cut = derive t r fraction := by
  rcases addDerivedCut_cases derive t r with ⟨-, hcut⟩ | ⟨fraction, hfraction, hcut⟩
  · rw [hcut]
    exact ⟨[], by simp, rfl, by simp⟩
  · rw [hcut]
    refine ⟨[derive t r fraction], rfl, rfl, ?_⟩
    intro cut hmem
    rw [List.mem_singleton.1 hmem]
    exact ⟨fraction, hfraction, rfl⟩

/-- A second cut that is derived after the first one separates for the tableau before both. -/
theorem separates_after_addRoundedCut (hprecision : 0 < t.precision)
    (hclear : t.HasClearFreeEntries r)
    (hcut : (t.addRoundedCut r).1.cutFraction? r = some fraction) :
    t.Separates r ((t.addRoundedCut r).1.fractionalRow r fraction) := by
  rcases addDerivedCut_cases roundedRow t r with ⟨hnone, hfirst⟩ | ⟨before, hbefore, hfirst⟩
  · rw [addRoundedCut, hfirst, hnone] at hcut
    exact absurd hcut (by simp)
  · rw [addRoundedCut, hfirst] at hcut ⊢
    have hprecision' : 0 < (t.pushCutRow (t.roundedRow r before)).precision := hprecision
    have hrow : (t.pushCutRow (t.roundedRow r before)).dictionary.row r = t.dictionary.row r := by
      have hsize := size_pos_of_cutFraction? hprecision hbefore
      refine (Dictionary.row_pushRow ..).trans (if_neg ?_)
      rintro rfl
      rw [Dictionary.row_of_matrix_size_le (le_refl _)] at hsize
      exact absurd hsize (by simp)
    -- The first cut leaves the row alone, so the fractional part is the same.
    have hentry : (t.pushCutRow (t.roundedRow r before)).dictionary.entry r 0 =
        t.dictionary.entry r 0 := by
      rw [Dictionary.entry, hrow]
      rfl
    have hsame := fraction_eq hprecision' hcut
    rw [hentry, ← fraction_eq hprecision hbefore] at hsame
    rw [hsame]
    exact separates_fractionalRow hprecision hclear hbefore hrow rfl
      fun _ => isInteger_of_pushCutRow

/-- Rounding cuts never remove an integral solution of the row they come from, and always
remove the present basic solution.  This holds of each of the two cuts on its own, and of all
rows that the attempt to add both of them pushes below the matrix. -/
theorem separates_of_roundingCuts (hprecision : 0 < t.precision)
    (hclear : t.HasClearFreeEntries r) :
    let fraction := t.dictionary.entry r 0 - Scalar.floor (t.dictionary.entry r 0)
    ((t.addRoundedCut r).2 = true →
      (t.addRoundedCut r).1 = t.pushCutRow (t.roundedRow r fraction) ∧
        t.Separates r (t.roundedRow r fraction)) ∧
      ((t.addFractionalCut r).2 = true →
        (t.addFractionalCut r).1 = t.pushCutRow (t.fractionalRow r fraction) ∧
          t.Separates r (t.fractionalRow r fraction)) ∧
      ∃ cuts : List (Array Rat),
        (t.addRoundingCutsOf r).1.dictionary.matrix = t.dictionary.matrix ++ cuts.toArray ∧
          (t.addRoundingCutsOf r).2 = cuts.length ∧ ∀ cut ∈ cuts, t.Separates r cut := by
  refine ⟨?_, ?_, ?_⟩
  · intro hadded
    obtain ⟨fraction, hcut, rfl, hpushed⟩ := addDerivedCut_of_added hprecision hadded
    exact ⟨hpushed, separates_roundedRow hprecision hclear hcut⟩
  · intro hadded
    obtain ⟨fraction, hcut, rfl, hpushed⟩ := addDerivedCut_of_added hprecision hadded
    exact ⟨hpushed, separates_fractionalRow hprecision hclear hcut rfl rfl fun _ hkind => hkind⟩
  · obtain ⟨rounded, hrounded, hroundedCount, hroundedCuts⟩ := exists_derived_cuts roundedRow t r
    obtain ⟨fractional, hfractional, hfractionalCount, hfractionalCuts⟩ :=
      exists_derived_cuts fractionalRow (t.addRoundedCut r).1 r
    refine ⟨rounded ++ fractional, ?_, ?_, ?_⟩
    · calc (t.addRoundingCutsOf r).1.dictionary.matrix
          = (t.addRoundedCut r).1.dictionary.matrix ++ fractional.toArray := hfractional
        _ = t.dictionary.matrix ++ rounded.toArray ++ fractional.toArray := by
            rw [addRoundedCut, hrounded]
        _ = t.dictionary.matrix ++ (rounded ++ fractional).toArray := by
            simp
    · rw [List.length_append, ← hroundedCount, ← hfractionalCount]
      rfl
    · intro cut hmem
      rcases List.mem_append.1 hmem with hmem | hmem
      · obtain ⟨fraction, hcut, rfl⟩ := hroundedCuts cut hmem
        exact separates_roundedRow hprecision hclear hcut
      · obtain ⟨fraction, hcut, rfl⟩ := hfractionalCuts cut hmem
        exact separates_after_addRoundedCut hprecision hclear hcut

/-- `x = 3/2 - y - s/2 - 0 * z` with integer `x` and `y`, the slack `s` and a free `z`. -/
def halfwayTableau : Tableau Rat :=
  { blank (1 / 1000000000) with
    dictionary :=
      { matrix := #[#[0, 0, 0, 0], #[3 / 2, 1, 1 / 2, 0]]
        basic := #[none, some 0]
        nonBasic := #[none, some 1, some 2, some 3]
        rowOf := ⟨#[some 1, none, none, none]⟩
        columnOf := ⟨#[none, some 1, some 2, some 3]⟩
        secondary := [] }
    pool := ⟨[], 4⟩
    arena := #[some (.declare "x" 1 0 .required .integer false),
      some (.declare "y" 1 1 .required .integer false), some (.slack 2),
      some (.declare "z" 0 3 .required .continuous true)] }

/-- One of the solutions that both cuts keep. -/
theorem isIntegralSolution_halfwayTableau :
    halfwayTableau.IsIntegralSolution 1 (fun index => if index = 0 ∨ index = 2 then 1 else 0) where
  equation index hindex := by
    obtain rfl : 0 = index := Option.some.inj hindex
    decide +kernel
  basic_whole index hindex := by
    obtain rfl : 0 = index := Option.some.inj hindex
    exact ⟨1, by decide +kernel⟩
  nonBasic_whole c _ _ := by
    split
    · exact ⟨1, by simp⟩
    · exact isWhole_zero
  nonneg := by decide +kernel

/-- The hypotheses hold at a tableau in order with an integer column, a continuous one and a
free one, and there both cuts are added, one after the other and each on its own. -/
theorem separates_of_roundingCuts_halfway :
    halfwayTableau.validate = .ok () ∧
      0 < halfwayTableau.precision ∧ halfwayTableau.HasClearFreeEntries 1 ∧
      (halfwayTableau.addRoundedCut 1).2 = true ∧ (halfwayTableau.addFractionalCut 1).2 = true ∧
      (halfwayTableau.addRoundingCutsOf 1).2 = 2 ∧
      ∃ first second x,
        (halfwayTableau.addRoundedCut 1).1 = halfwayTableau.pushCutRow first ∧
          (halfwayTableau.addFractionalCut 1).1 = halfwayTableau.pushCutRow second ∧
          halfwayTableau.IsIntegralSolution 1 x ∧
          0 ≤ halfwayTableau.dictionary.rowValue first x ∧
          0 ≤ halfwayTableau.dictionary.rowValue second x ∧
          halfwayTableau.dictionary.rowValue first (fun _ => 0) < 0 ∧
          halfwayTableau.dictionary.rowValue second (fun _ => 0) < 0 := by
  have hprecision : 0 < halfwayTableau.precision := by decide +kernel
  have hclear : halfwayTableau.HasClearFreeEntries 1 := by decide +kernel
  have hfirstAdded : (halfwayTableau.addRoundedCut 1).2 = true := by decide +kernel
  have hsecondAdded : (halfwayTableau.addFractionalCut 1).2 = true := by decide +kernel
  obtain ⟨hrounded, hfractional, -⟩ := separates_of_roundingCuts hprecision hclear
  obtain ⟨hfirst, hfirstSeparates⟩ := hrounded hfirstAdded
  obtain ⟨hsecond, hsecondSeparates⟩ := hfractional hsecondAdded
  exact ⟨by decide +kernel, hprecision, hclear, hfirstAdded, hsecondAdded, by decide +kernel,
    _, _, _, hfirst, hsecond, isIntegralSolution_halfwayTableau,
    hfirstSeparates.valid _ isIntegralSolution_halfwayTableau,
    hsecondSeparates.valid _ isIntegralSolution_halfwayTableau,
    hfirstSeparates.fails, hsecondSeparates.fails⟩

end Tableau

end MixedInteger
