import MixedInteger.Proofs.EditMeaning
import MixedInteger.Proofs.RoundingCuts
import MixedInteger.Proofs.Verdicts

/-!
# Relaxations of a search

Every tableau of a search relaxes the tableau at which the search began: its feasible
points are feasible there with the same cost, and the integral points there that respect
the bound cuts of the branch extend to integral points of it.  Bound cuts, rounding cuts
and runs of the simplex method keep this so, and at the end of a run the verdict of the
tableau says what it says about the integral points of the branch.
-/

namespace MixedInteger

def Cut.Holds (cut : Cut Rat) (x : Nat → Rat) : Prop :=
  match cut.kind with
  | .atMost => x cut.index ≤ cut.value
  | .atLeast => cut.value ≤ x cut.index

/-! ## Points of a dictionary -/

namespace Dictionary

variable {d : Dictionary Rat} {x y : Nat → Rat}

/-- The value of a row depends on the variables of the columns. -/
theorem IsNamed.rowValue_congr (h : d.IsNamed) (row : Array Rat)
    (hxy : ∀ index, d.HasVariable index → y index = x index) :
    d.rowValue row y = d.rowValue row x := by
  apply Dictionary.rowValue_congr rfl rfl
  intro c hc
  obtain ⟨index, hindex⟩ := h.exists_nonBasicAt hc
  rw [IsNamed.nameAt_eq hindex, hxy index (.inr ⟨c, hc, hindex⟩)]

theorem IsNamed.satisfies_congr (h : d.IsNamed)
    (hxy : ∀ index, d.HasVariable index → y index = x index) :
    d.Satisfies y ↔ d.Satisfies x := by
  apply forall₂_congr
  intro r hr
  apply forall₂_congr
  intro index hindex
  rw [h.rowValue_congr _ hxy, hxy index (.inl ⟨r, hr, hindex⟩)]

end Dictionary

namespace Tableau

variable {base t t' : Tableau Rat} {x y : Nat → Rat} {holds holds' : (Nat → Rat) → Prop}

/-- The first objective, in minimisation orientation. -/
def cost (t : Tableau Rat) (x : Nat → Rat) : Rat :=
  t.dictionary.objectiveAt .required x

theorem cost_valueOf (h : t.dictionary.IsNamed) :
    t.cost t.dictionary.valueOf = t.dictionary.entry 0 0 :=
  Dictionary.rowValue_valueOf h _

/-! ## New rows -/

section PushedRows

variable {row : Array Rat}

theorem hasVariable_pushCutRow (h : t.IsSound) (hrow : row.size = t.dictionary.width)
    (index : Nat) :
    (t.pushCutRow row).dictionary.HasVariable index ↔
      index = t.pool.allocate.1 ∨ t.dictionary.HasVariable index := by
  rw [(h.pushCutRow hrow).consistent.hasVariable_iff, h.consistent.hasVariable_iff]
  exact Dictionary.mentions_pushRow h.not_mentions_allocate row index

theorem not_hasVariable_allocate (h : t.IsSound) :
    ¬ t.dictionary.HasVariable t.pool.allocate.1 := by
  rw [h.consistent.hasVariable_iff]
  exact h.not_mentions_allocate

theorem ne_allocate_of_hasVariable (h : t.IsSound) {index : Nat}
    (hindex : t.dictionary.HasVariable index) : index ≠ t.pool.allocate.1 := by
  rintro rfl
  exact not_hasVariable_allocate h hindex

theorem admits_pushCutRow (h : t.IsSound) (hrow : row.size = t.dictionary.width) :
    (t.pushCutRow row).Admits x ↔ t.Admits x ∧ 0 ≤ x t.pool.allocate.1 := by
  constructor
  · intro hx
    constructor
    · intro index hindex hrestricted
      apply hx index ((hasVariable_pushCutRow h hrow index).2 (.inr hindex))
      rw [isFree_pushCutRow, if_neg (ne_allocate_of_hasVariable h hindex)]
      exact hrestricted
    · apply hx _ ((hasVariable_pushCutRow h hrow _).2 (.inl rfl))
      rw [isFree_pushCutRow, if_pos rfl]
  · rintro ⟨hx, hslack⟩ index hindex hrestricted
    rcases (hasVariable_pushCutRow h hrow index).1 hindex with rfl | hold
    · exact hslack
    · rw [isFree_pushCutRow, if_neg (ne_allocate_of_hasVariable h hold)] at hrestricted
      exact hx index hold hrestricted

theorem isFeasiblePoint_pushCutRow (h : t.IsSound) (hrow : row.size = t.dictionary.width) :
    (t.pushCutRow row).IsFeasiblePoint x ↔
      t.IsFeasiblePoint x ∧ x t.pool.allocate.1 = t.dictionary.rowValue row x ∧
        0 ≤ x t.pool.allocate.1 := by
  have hsatisfies : (t.pushCutRow row).dictionary.Satisfies x ↔
      t.dictionary.Satisfies x ∧ x t.pool.allocate.1 = t.dictionary.rowValue row x :=
    Dictionary.satisfies_pushRow h.consistent row
  rw [IsFeasiblePoint, IsFeasiblePoint, hsatisfies, admits_pushCutRow h hrow]
  tauto

/-- An integral point extends to the slack of a new row that it respects. -/
theorem isIntegralPoint_update_pushCutRow (h : t.IsSound)
    (hrow : row.size = t.dictionary.width) (hx : t.IsIntegralPoint x)
    (hvalue : 0 ≤ t.dictionary.rowValue row x) :
    (t.pushCutRow row).IsIntegralPoint
      (Function.update x t.pool.allocate.1 (t.dictionary.rowValue row x)) := by
  have hsame (index : Nat) (hindex : t.dictionary.HasVariable index) :
      Function.update x t.pool.allocate.1 (t.dictionary.rowValue row x) index = x index :=
    Function.update_of_ne (ne_allocate_of_hasVariable h hindex) _ _
  have hnamed := h.consistent.isNamed
  constructor
  · rw [isFeasiblePoint_pushCutRow h hrow, hnamed.rowValue_congr row hsame, Function.update_self]
    refine ⟨⟨(hnamed.satisfies_congr hsame).2 hx.feasible.1, ?_⟩, rfl, hvalue⟩
    intro index hindex hrestricted
    rw [hsame index hindex]
    exact hx.feasible.2 index hindex hrestricted
  · intro index hindex hinteger
    rw [isInteger_pushCutRow] at hinteger
    rcases (hasVariable_pushCutRow h hrow index).1 hindex with rfl | hold
    · rw [if_pos rfl] at hinteger
      exact absurd hinteger (by simp)
    · rw [if_neg (ne_allocate_of_hasVariable h hold)] at hinteger
      rw [hsame index hold]
      exact hx.whole index hold hinteger

theorem cost_pushCutRow (h : t.IsSound) (row : Array Rat) (x : Nat → Rat) :
    (t.pushCutRow row).cost x = t.cost x :=
  Dictionary.objectiveAt_pushRow h.consistent row .required

/-- A tableau that has the rows of another one, and possibly more below them. -/
structure HasRowsOf (t t' : Tableau Rat) : Prop where
  precision : t'.precision = t.precision
  height_le : t.dictionary.height ≤ t'.dictionary.height
  row_eq : ∀ r < t.dictionary.height, t'.dictionary.row r = t.dictionary.row r

theorem HasRowsOf.refl (t : Tableau Rat) : HasRowsOf t t :=
  ⟨rfl, le_refl _, fun _ _ => rfl⟩

theorem HasRowsOf.pushCutRow (h : HasRowsOf t t') (ht' : t'.dictionary.IsRectangular)
    (row : Array Rat) : HasRowsOf t (t'.pushCutRow row) := by
  refine ⟨h.precision, ?_, ?_⟩
  · rw [height_pushCutRow]
    exact Nat.le_succ_of_le h.height_le
  · intro r hr
    rw [row_pushCutRow ht' row (Nat.lt_of_lt_of_le hr h.height_le)]
    exact h.row_eq r hr

theorem HasRowsOf.addRoundingCutsOf (h : HasRowsOf t t') (hsound : t'.IsSound) (r : Nat) :
    HasRowsOf t (t'.addRoundingCutsOf r).1 := by
  have hkept := addRoundingCutsOf_kept (fun t' => t'.IsSound ∧ HasRowsOf t t')
    (fun _ row ht' hrow =>
      ⟨ht'.1.pushCutRow hrow, ht'.2.pushCutRow ht'.1.consistent.toIsRectangular row⟩)
    (fun _ ht' => ht'.1.consistent.row_size) ⟨hsound, h⟩ r
  exact hkept.2

/-- A bound cut becomes a row with the distance to the bound. -/
theorem addCut_eq (h : t.IsSound) {cut : Cut Rat} (hcut : t.dictionary.Mentions cut.index) :
    ∃ row, addCut cut t = .ok () (t.pushCutRow row) ∧ row.size = t.dictionary.width ∧
      ∀ x, t.dictionary.Satisfies x → (0 ≤ t.dictionary.rowValue row x ↔ cut.Holds x) := by
  have hterms : ∀ term ∈ [Term.mk cut.index (1 : Rat)],
      t.registerSlack.2.dictionary.Mentions term.index := by
    intro term hterm
    rw [List.mem_singleton.1 hterm]
    exact hcut
  obtain ⟨row, hrow, hsize, hadd⟩ := addConstraint_of_mentions hterms t.registerSlack.1
    (cut.kind == .atMost) cut.value
  refine ⟨row, hadd, hsize, ?_⟩
  intro x hx
  have hwidth : 0 < t.dictionary.width := h.consistent.columns_agree.size_pos
  have hvalue : t.dictionary.rowValue row x = boundSign (cut.kind == .atMost) * cut.value -
      boundSign (cut.kind == .atMost) * x cut.index := by
    rw [addTerms] at hrow
    split at hrow
    · next row' hsome =>
      injection hrow with heq
      have hadded : addToRow? t.dictionary cut.index (boundSign (cut.kind == .atMost) * 1)
          (slackRow t.dictionary (cut.kind == .atMost) cut.value) = some row' := hsome
      rw [← heq, Dictionary.rowValue_addToRow? h.consistent (by simp [slackRow]) hadded
        (fun s hs hbasic => hx s hs _ hbasic), Dictionary.rowValue_slackRow hwidth, mul_one]
    · exact absurd hrow (by simp)
  rw [hvalue, Cut.Holds, boundSign]
  cases cut.kind with
  | atMost => simp
  | atLeast => simp

end PushedRows

/-! ## Relaxations -/

/-- A tableau whose feasible points are feasible points of `base`, at the same cost, and to
which the integral points of `base` extend, as far as they lie in the branch. -/
structure Relaxes (base t : Tableau Rat) (holds : (Nat → Rat) → Prop) : Prop where
  precision : t.precision = base.precision
  hasVariable : ∀ index, base.dictionary.HasVariable index → t.dictionary.HasVariable index
  sound : ∀ x, t.IsFeasiblePoint x → base.IsFeasiblePoint x ∧ t.cost x = base.cost x
  complete : ∀ x, base.IsIntegralPoint x → holds x →
    ∃ y, (∀ index, base.dictionary.HasVariable index → y index = x index) ∧ t.IsIntegralPoint y

namespace Relaxes

theorem refl (base : Tableau Rat) (holds : (Nat → Rat) → Prop) : Relaxes base base holds :=
  ⟨rfl, fun _ hindex => hindex, fun _ hx => ⟨hx, rfl⟩, fun x hx _ => ⟨x, fun _ _ => rfl, hx⟩⟩

/-- A smaller branch has fewer points to extend. -/
theorem mono (h : Relaxes base t holds) (hholds : ∀ x, holds' x → holds x) :
    Relaxes base t holds' :=
  ⟨h.precision, h.hasVariable, h.sound, fun x hx hx' => h.complete x hx (hholds x hx')⟩

/-- Only the dictionary and the variables matter. -/
theorem of_lookup? (h : Relaxes base t holds) (hprecision : t'.precision = t.precision)
    (hdictionary : t'.dictionary = t.dictionary)
    (hlookup : ∀ index, t'.lookup? index = t.lookup? index) : Relaxes base t' holds := by
  have hfree (index : Nat) : t'.isFree (some index) = t.isFree (some index) := by
    rw [isFree, isFree, Option.bind_some, Option.bind_some, hlookup]
  have hinteger (index : Nat) : t'.isInteger (some index) = t.isInteger (some index) := by
    rw [isInteger, isInteger, Option.bind_some, Option.bind_some, hlookup]
  have hpoint (x : Nat → Rat) : t'.IsFeasiblePoint x ↔ t.IsFeasiblePoint x := by
    simp only [IsFeasiblePoint, Admits, hdictionary, hfree]
  refine ⟨hprecision.trans h.precision, ?_, ?_, ?_⟩
  · rw [hdictionary]
    exact h.hasVariable
  · intro x hx
    rw [cost, hdictionary]
    exact h.sound x ((hpoint x).1 hx)
  · intro x hx hholds
    obtain ⟨y, hxy, hy⟩ := h.complete x hx hholds
    refine ⟨y, hxy, (hpoint y).2 hy.feasible, ?_⟩
    intro index hindex hwhole
    rw [hdictionary] at hindex
    rw [hinteger] at hwhole
    exact hy.whole index hindex hwhole

/-- A new row that the integral points of the branch respect. -/
theorem pushCutRow (h : Relaxes base t holds) (hsound : t.IsSound) {row : Array Rat}
    (hrow : row.size = t.dictionary.width) (hholds : ∀ x, holds' x → holds x)
    (hvalid : ∀ x y, holds' x → (∀ index, base.dictionary.HasVariable index → y index = x index) →
      t.IsIntegralPoint y → 0 ≤ t.dictionary.rowValue row y) :
    Relaxes base (t.pushCutRow row) holds' := by
  refine ⟨h.precision, ?_, ?_, ?_⟩
  · intro index hindex
    exact (hasVariable_pushCutRow hsound hrow index).2 (.inr (h.hasVariable index hindex))
  · intro x hx
    rw [cost_pushCutRow hsound]
    exact h.sound x ((isFeasiblePoint_pushCutRow hsound hrow).1 hx).1
  · intro x hx hx'
    obtain ⟨y, hxy, hy⟩ := h.complete x hx (hholds x hx')
    refine ⟨_, ?_, isIntegralPoint_update_pushCutRow hsound hrow hy (hvalid x y hx' hxy hy)⟩
    intro index hindex
    rw [Function.update_of_ne (ne_allocate_of_hasVariable hsound (h.hasVariable index hindex))]
    exact hxy index hindex

/-- Bound cuts narrow the branch. -/
theorem addCuts (h : Relaxes base t holds) (hsound : t.IsSound) {cuts : List (Cut Rat)}
    (hcuts : ∀ cut ∈ cuts, base.dictionary.HasVariable cut.index) :
    ∃ t', Tableau.addCuts cuts t = .ok () t' ∧ t'.IsSound ∧
      Relaxes base t' fun x => holds x ∧ ∀ cut ∈ cuts, cut.Holds x := by
  induction cuts generalizing t holds with
  | nil => exact ⟨t, rfl, hsound, h.mono fun x hx => hx.1⟩
  | cons cut rest ih =>
    obtain ⟨hcut, hrest⟩ := List.forall_mem_cons.1 hcuts
    have hmentions := (hsound.consistent.hasVariable_iff cut.index).1 (h.hasVariable _ hcut)
    obtain ⟨row, hadd, hrow, hvalue⟩ := addCut_eq hsound hmentions
    have hnarrowed : Relaxes base (t.pushCutRow row) fun x => holds x ∧ cut.Holds x := by
      apply h.pushCutRow hsound hrow fun x hx => hx.1
      intro x y hx hxy hy
      rw [hvalue y hy.feasible.1]
      have hsame := hxy _ hcut
      revert hx
      simp only [Cut.Holds, hsame]
      exact fun hx => hx.2
    obtain ⟨t', hadds, hsound', hrelaxes⟩ := ih hnarrowed (hsound.pushCutRow hrow) hrest
    refine ⟨t', (forM_cons_of_ok hadd).trans hadds, hsound', hrelaxes.mono ?_⟩
    rintro x ⟨hholds, hall⟩
    obtain ⟨hfirst, hothers⟩ := List.forall_mem_cons.1 hall
    exact ⟨⟨hholds, hfirst⟩, hothers⟩

/-- A run of the simplex method keeps the points and their cost. -/
theorem of_stopsAt (h : Relaxes base t holds) (hstops : StopsAt t t') :
    Relaxes base t' holds := by
  refine ⟨hstops.frame.precision.trans h.precision, ?_, ?_, ?_⟩
  · intro index hindex
    exact (hstops.program.hasVariable_iff index).2 (h.hasVariable index hindex)
  · intro x hx
    have hbefore := hstops.isFeasiblePoint_iff.1 hx
    have hcost : t.cost x = t'.cost x := (List.cons.inj (hstops.objectiveVector_eq hbefore)).1
    rw [← hcost]
    exact h.sound x hbefore
  · intro x hx hholds
    obtain ⟨y, hxy, hy⟩ := h.complete x hx hholds
    refine ⟨y, hxy, hstops.isFeasiblePoint_iff.2 hy.feasible, ?_⟩
    intro index hindex hinteger
    apply hy.whole index ((hstops.program.hasVariable_iff index).1 hindex)
    rw [isInteger, Option.bind_some, hstops.frame.lookup?] at hinteger
    exact hinteger

/-- A cut that holds at all integral points keeps them. -/
theorem addDerivedCut (h : Relaxes base t holds) (hsound : t.IsSound)
    {derive : Tableau Rat → Nat → Rat → Array Rat} {r : Nat}
    (hsize : ∀ fraction, (derive t r fraction).size = (t.dictionary.row r).size)
    (hvalid : ∀ fraction, t.cutFraction? r = some fraction → ∀ x, t.IsIntegralPoint x →
      0 ≤ t.dictionary.rowValue (derive t r fraction) x) :
    (t.addDerivedCut derive r).1.IsSound ∧ Relaxes base (t.addDerivedCut derive r).1 holds := by
  apply addDerivedCut_kept (fun t' => t'.IsSound ∧ Relaxes base t' holds) _ ⟨hsound, h⟩
  intro fraction hfraction
  have hwidth : (derive t r fraction).size = t.dictionary.width :=
    (hsize fraction).trans (hsound.consistent.row_size r (lt_height_of_cutFraction? hfraction))
  exact ⟨hsound.pushCutRow hwidth, h.pushCutRow hsound hwidth (fun _ hx => hx)
    fun x y _ _ hy => hvalid fraction hfraction y hy⟩

/-- The rounding cuts of one row keep all integral points. -/
theorem addRoundingCutsOf (h : Relaxes base t holds) (hsound : t.IsSound)
    (hprecision : 0 < t.precision) {r : Nat} (hr : r < t.dictionary.height)
    (hclear : ∀ c, t.IsClear (t.dictionary.entry r c)) :
    (t.addRoundingCutsOf r).1.IsSound ∧ Relaxes base (t.addRoundingCutsOf r).1 holds := by
  have hrounded : (t.addRoundedCut r).1.IsSound ∧ Relaxes base (t.addRoundedCut r).1 holds :=
    h.addDerivedCut hsound (size_roundedRow t r) fun _ hfraction x hx =>
      (roundingRows_nonneg hsound.consistent hprecision hclear hfraction hx).1
  obtain ⟨hsound', hrelaxes⟩ := hrounded
  -- The second cut is derived from the same row, below which the first one was pushed.
  have hrows : HasRowsOf t (t.addRoundedCut r).1 :=
    addDerivedCut_kept (HasRowsOf t)
      (fun _ _ => (HasRowsOf.refl t).pushCutRow hsound.consistent.toIsRectangular _)
      (HasRowsOf.refl t)
  have hprecision' : 0 < (t.addRoundedCut r).1.precision := by
    rw [hrows.precision]
    exact hprecision
  have hclear' (c : Nat) :
      (t.addRoundedCut r).1.IsClear ((t.addRoundedCut r).1.dictionary.entry r c) := by
    rw [Dictionary.entry, hrows.row_eq r hr, IsClear, hrows.precision]
    exact hclear c
  exact hrelaxes.addDerivedCut hsound' (size_fractionalRow _ r) fun _ hfraction x hx =>
    (roundingRows_nonneg hsound'.consistent hprecision' hclear' hfraction hx).2

/-- Rounding cuts keep all integral points. -/
theorem addRoundingCuts (h : Relaxes base t holds) (hsound : t.IsSound)
    (hseparated : t.IsSeparated) (integers : List Nat) :
    (t.addRoundingCuts integers).1.IsSound ∧
      Relaxes base (t.addRoundingCuts integers).1 holds := by
  -- The rows of `t` stay as they are while cuts are pushed below them.
  have hkept : HasRowsOf t (t.addRoundingCuts integers).1 ∧
      (t.addRoundingCuts integers).1.IsSound ∧
        Relaxes base (t.addRoundingCuts integers).1 holds := by
    refine addRoundingCuts_invariant
      (fun t' _ => HasRowsOf t t' ∧ t'.IsSound ∧ Relaxes base t' holds) ?_
      ⟨HasRowsOf.refl t, hsound, h⟩
    rintro r hr t' added ⟨hrows, hsound', hrelaxes⟩
    have hlt : r < t.dictionary.height := (Dictionary.mem_rows.1 (List.mem_filter.1 hr).1).2
    refine ⟨hrows.addRoundingCutsOf hsound' r, hrelaxes.addRoundingCutsOf hsound' ?_ ?_ ?_⟩
    · rw [hrows.precision]
      exact hseparated.precision_pos
    · exact Nat.lt_of_lt_of_le hlt hrows.height_le
    · intro c
      rw [Dictionary.entry, hrows.row_eq r hlt, IsClear, hrows.precision]
      exact hseparated.entry_clear r c
  exact hkept.2

end Relaxes

end Tableau

end MixedInteger
