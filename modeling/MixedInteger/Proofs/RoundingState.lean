import Mathlib.Algebra.Ring.Nat
import MixedInteger.Proofs.Arena
import MixedInteger.Proofs.PivotRun
import MixedInteger.Tableau.Search

/-!
# What rounding cuts do to a tableau

Rounding cuts push rows with fresh slacks and leave everything else alone.  Rounds of
them alternate with runs of the simplex method; `roundingSources` lists the tableaus
from which a round derives its cuts, also for rounds that end with a fault.  What a
push and a run preserve, the rounds preserve.
-/

namespace MixedInteger.Tableau

variable {α : Type} [Scalar α] {t : Tableau α} {r : Nat} {fraction : α}

/-! ## Rows of cuts -/

theorem pushCutRow_eq (t : Tableau α) (row : Array α) :
    t.pushCutRow row =
      (t.register Variable.slack).2.modifyDictionary fun d => d.pushRow t.pool.allocate.1 row :=
  rfl

theorem height_pushCutRow (t : Tableau α) (row : Array α) :
    (t.pushCutRow row).dictionary.height = t.dictionary.height + 1 :=
  Array.size_push ..

/-- Pushing a row does not change the rows before it. -/
theorem row_pushCutRow (h : t.dictionary.IsRectangular) (row : Array α)
    (hr : r < t.dictionary.height) :
    (t.pushCutRow row).dictionary.row r = t.dictionary.row r := by
  have hne : r ≠ t.dictionary.matrix.size := by
    rw [h.matrix_size]
    exact Nat.ne_of_lt hr
  rw [Dictionary.row_eq, Dictionary.row_eq]
  change (t.dictionary.matrix.push row)[r]?.getD #[] = _
  rw [Array.getElem?_push, if_neg hne]

theorem lookup?_pushCutRow (t : Tableau α) (row : Array α) (index : Nat) :
    (t.pushCutRow row).lookup? index =
      if index = t.pool.allocate.1 then some (Variable.slack t.pool.allocate.1)
      else t.lookup? index :=
  lookup?_register rfl index

theorem isFree_pushCutRow (t : Tableau α) (row : Array α) (index : Nat) :
    (t.pushCutRow row).isFree (some index) =
      if index = t.pool.allocate.1 then false else t.isFree (some index) := by
  rw [isFree, isFree, Option.bind_some, Option.bind_some, lookup?_pushCutRow]
  split <;> rfl

theorem isInteger_pushCutRow (t : Tableau α) (row : Array α) (index : Nat) :
    (t.pushCutRow row).isInteger (some index) =
      if index = t.pool.allocate.1 then false else t.isInteger (some index) := by
  rw [isInteger, isInteger, Option.bind_some, Option.bind_some, lookup?_pushCutRow]
  split <;> rfl

theorem IsSound.pushCutRow (h : t.IsSound) {row : Array α}
    (hrow : row.size = t.dictionary.width) : (t.pushCutRow row).IsSound :=
  h.register_pushRow (fun _ => rfl) hrow

theorem IsSearchFrom.pushCutRow {root : Tableau α} (h : IsSearchFrom root t)
    (hroot : root.IsSound) {row : Array α} (hrow : row.size = t.dictionary.width) :
    IsSearchFrom root (t.pushCutRow row) :=
  h.register_pushRow hroot (fun _ => rfl) hrow

/-- A rounding cut comes from a row that is there. -/
theorem lt_height_of_cutFraction? (h : t.cutFraction? r = some fraction) :
    r < t.dictionary.height := by
  apply Nat.lt_of_not_le
  intro hlarge
  have hbasic : t.dictionary.basicAt r = none := by
    rw [Dictionary.basicAt, Array.getElem?_eq_none hlarge]
    rfl
  simp [cutFraction?, hbasic, isInteger] at h

theorem size_roundedRow (t : Tableau α) (r : Nat) (fraction : α) :
    (t.roundedRow r fraction).size = (t.dictionary.row r).size :=
  Array.size_mapIdx

theorem size_fractionalRow (t : Tableau α) (r : Nat) (fraction : α) :
    (t.fractionalRow r fraction).size = (t.dictionary.row r).size :=
  Array.size_mapIdx

/-! ## Cuts of one row -/

section DerivedCuts

variable {derive : Tableau α → Nat → α → Array α}

/-- A row that does not allow a cut leaves the tableau alone, and one that does brings one
row. -/
theorem addDerivedCut_cases (derive : Tableau α → Nat → α → Array α) (t : Tableau α) (r : Nat) :
    t.cutFraction? r = none ∧ t.addDerivedCut derive r = (t, false) ∨
      ∃ fraction, t.cutFraction? r = some fraction ∧
        t.addDerivedCut derive r = (t.pushCutRow (derive t r fraction), true) := by
  unfold addDerivedCut
  cases t.cutFraction? r with
  | none => exact .inl ⟨rfl, rfl⟩
  | some fraction => exact .inr ⟨fraction, rfl, rfl⟩

/-- What pushing the derived row preserves, the cut preserves. -/
theorem addDerivedCut_kept (kept : Tableau α → Prop)
    (hpush : ∀ fraction, t.cutFraction? r = some fraction →
      kept (t.pushCutRow (derive t r fraction)))
    (ht : kept t) : kept (t.addDerivedCut derive r).1 := by
  rcases addDerivedCut_cases derive t r with ⟨-, hcut⟩ | ⟨fraction, hfraction, hcut⟩
  · rw [hcut]
    exact ht
  · rw [hcut]
    exact hpush fraction hfraction

theorem height_addDerivedCut (derive : Tableau α → Nat → α → Array α) (t : Tableau α) (r : Nat) :
    (t.addDerivedCut derive r).1.dictionary.height =
      t.dictionary.height + (t.addDerivedCut derive r).2.toNat := by
  rcases addDerivedCut_cases derive t r with ⟨-, hcut⟩ | ⟨fraction, -, hcut⟩
  · rw [hcut]
    rfl
  · rw [hcut]
    exact height_pushCutRow t _

theorem addDerivedCut_of_not_added (h : (t.addDerivedCut derive r).2 = false) :
    (t.addDerivedCut derive r).1 = t := by
  rcases addDerivedCut_cases derive t r with ⟨-, hcut⟩ | ⟨fraction, -, hcut⟩
  · rw [hcut]
  · rw [hcut] at h
    exact absurd h (by simp)

end DerivedCuts

/-! ## Cuts of all rows -/

/-- What the cuts of one row preserve, those of all rows preserve. -/
theorem addRoundingCuts_invariant (kept : Tableau α → Nat → Prop) {indices : List Nat}
    (hstep : ∀ r ∈ t.fractionalRows indices, ∀ t added, kept t added →
      kept (t.addRoundingCutsOf r).1 (added + (t.addRoundingCutsOf r).2))
    (ht : kept t 0) :
    kept (t.addRoundingCuts indices).1 (t.addRoundingCuts indices).2 := by
  unfold addRoundingCuts
  generalize t.fractionalRows indices = rows at hstep
  generalize 0 = added at ht
  induction rows generalizing t added with
  | nil => exact ht
  | cons r rest ih =>
    obtain ⟨hfirst, hrest⟩ := List.forall_mem_cons.1 hstep
    exact ih hrest _ (hfirst t added ht)

/-- What pushing any row preserves, rounding cuts preserve. -/
theorem addRoundingCuts_pushed (kept : Tableau α → Prop)
    (hpush : ∀ t row, kept t → kept (t.pushCutRow row)) (ht : kept t) (indices : List Nat) :
    kept (t.addRoundingCuts indices).1 := by
  apply addRoundingCuts_invariant (fun t' _ => kept t') _ ht
  intro r _ t' _ ht'
  have hrounded : kept (t'.addRoundedCut r).1 :=
    addDerivedCut_kept kept (fun _ _ => hpush t' _ ht') ht'
  exact addDerivedCut_kept kept (fun _ _ => hpush _ _ hrounded) hrounded

/-- What pushing rows of the full width preserves, the cuts of one row preserve. -/
theorem addRoundingCutsOf_kept (kept : Tableau α → Prop)
    (hpush : ∀ t row, kept t → row.size = t.dictionary.width → kept (t.pushCutRow row))
    (hrows : ∀ t, kept t → ∀ r < t.dictionary.height,
      (t.dictionary.row r).size = t.dictionary.width)
    (ht : kept t) (r : Nat) : kept (t.addRoundingCutsOf r).1 := by
  have hcut {t : Tableau α} {derive : Tableau α → Nat → α → Array α} (ht : kept t)
      (hsize : ∀ fraction, (derive t r fraction).size = (t.dictionary.row r).size) :
      kept (t.addDerivedCut derive r).1 := by
    apply addDerivedCut_kept kept _ ht
    intro fraction hfraction
    exact hpush t _ ht ((hsize fraction).trans (hrows t ht r (lt_height_of_cutFraction? hfraction)))
  exact hcut (hcut ht (size_roundedRow t r)) (size_fractionalRow _ r)

/-- What pushing rows of the full width preserves, rounding cuts preserve. -/
theorem addRoundingCuts_kept (kept : Tableau α → Prop)
    (hpush : ∀ t row, kept t → row.size = t.dictionary.width → kept (t.pushCutRow row))
    (hrows : ∀ t, kept t → ∀ r < t.dictionary.height,
      (t.dictionary.row r).size = t.dictionary.width)
    (ht : kept t) (indices : List Nat) : kept (t.addRoundingCuts indices).1 :=
  addRoundingCuts_invariant (fun t _ => kept t)
    (fun r _ _ _ ht => addRoundingCutsOf_kept kept hpush hrows ht r) ht

/-- Every cut is one row. -/
theorem height_addRoundingCuts (t : Tableau α) (indices : List Nat) :
    (t.addRoundingCuts indices).1.dictionary.height =
      t.dictionary.height + (t.addRoundingCuts indices).2 := by
  apply addRoundingCuts_invariant
    (fun t' added => t'.dictionary.height = t.dictionary.height + added) _ rfl
  intro r _ t' added ht'
  have hrounded : (t'.addRoundedCut r).1.dictionary.height = _ :=
    height_addDerivedCut roundedRow t' r
  calc (t'.addRoundingCutsOf r).1.dictionary.height
      = (t'.addRoundedCut r).1.dictionary.height +
          ((t'.addRoundedCut r).1.addFractionalCut r).2.toNat := height_addDerivedCut _ _ r
    _ = t.dictionary.height + (added + (t'.addRoundingCutsOf r).2) := by
        rw [hrounded, ht', Nat.add_assoc, Nat.add_assoc]
        rfl

/-- Without a cut the tableau is as it was. -/
theorem addRoundingCuts_of_zero {indices : List Nat} (h : (t.addRoundingCuts indices).2 = 0) :
    (t.addRoundingCuts indices).1 = t := by
  refine addRoundingCuts_invariant (fun t' added => added = 0 → t' = t) ?_ (fun _ => rfl) h
  intro r _ t' added ht' hadded
  obtain ⟨hbefore, hcuts⟩ := Nat.add_eq_zero_iff.1 hadded
  obtain ⟨hrounded, hfractional⟩ := Nat.add_eq_zero_iff.1 hcuts
  have hfirst : (t'.addRoundedCut r).1 = t' :=
    addDerivedCut_of_not_added (Bool.toNat_eq_zero.1 hrounded)
  have hsecond : (t'.addRoundingCutsOf r).1 = (t'.addRoundedCut r).1 :=
    addDerivedCut_of_not_added (Bool.toNat_eq_zero.1 hfractional)
  rw [hsecond, hfirst]
  exact ht' hbefore

/-! ## Rounds -/

def roundingSources (effort : Effort) (integers : List Nat) : Nat → Tableau α → List (Tableau α)
  | 0, _ => []
  | rounds + 1, t =>
    if t.isFeasible && t.isBounded then
      t :: if (t.addRoundingCuts integers).2 != 0 then
          match simplex effort (t.addRoundingCuts integers).1 with
          | .ok _ t' =>
            if !(volumeShrinkage * t.fractionalVolume integers ≤ t'.fractionalVolume integers :
                Bool) then
              roundingSources effort integers rounds t'
            else []
          | .error _ _ => []
        else []
    else []

def roundingCount (effort : Effort) (integers : List Nat) (rounds : Nat) (t : Tableau α) : Nat :=
  ((roundingSources effort integers rounds t).map fun source =>
    (source.addRoundingCuts integers).2).sum

theorem roundingRounds_succ (effort : Effort) (integers : List Nat) (rounds : Nat)
    (t : Tableau α) :
    roundingRounds effort integers (rounds + 1) t =
      if t.isFeasible && t.isBounded then
        if (t.addRoundingCuts integers).2 != 0 then
          match simplex effort (t.addRoundingCuts integers).1 with
          | .ok _ t' =>
            if !(volumeShrinkage * t.fractionalVolume integers ≤ t'.fractionalVolume integers :
                Bool) then
              roundingRounds effort integers rounds t'
            else .ok () t'
          | .error fault t' => .error fault t'
        else .ok () t
      else .ok () t := by
  have hround : roundingRounds effort integers (rounds + 1) t =
      (if t.isFeasible && t.isBounded then do
        set (t.addRoundingCuts integers).1
        if (t.addRoundingCuts integers).2 != 0 then do
          simplex effort
          let after := (← get).fractionalVolume integers
          if !(volumeShrinkage * t.fractionalVolume integers ≤ after : Bool) then
            roundingRounds effort integers rounds
      else pure () : Action α Unit) t := rfl
  rw [hround]
  split
  · change (if (t.addRoundingCuts integers).2 != 0 then do
          simplex effort
          let after := (← get).fractionalVolume integers
          if !(volumeShrinkage * t.fractionalVolume integers ≤ after : Bool) then
            roundingRounds effort integers rounds
        else pure () : Action α Unit) (t.addRoundingCuts integers).1 = _
    split
    · cases hsimplex : simplex effort (t.addRoundingCuts integers).1 with
      | ok result t' =>
        rw [bind_of_ok hsimplex, bind_of_ok (run_get t')]
        dsimp only
        split <;> rfl
      | error fault t' => exact bind_of_error hsimplex
    · next hadded =>
      rw [addRoundingCuts_of_zero (by simpa using hadded)]
      rfl
  · rfl

/-- What a round with cuts preserves, all rounds preserve. -/
theorem roundingRounds_ends (kept : Tableau α → Prop) (failed : Fault → Tableau α → Prop)
    (hspent : ∀ t, kept t → failed Cause.outOfSteps t) {effort : Effort} {integers : List Nat}
    {rounds : Nat}
    (hround : ∀ source ∈ roundingSources effort integers rounds t,
      (source.addRoundingCuts integers).2 ≠ 0 → kept source →
        Ends (simplex effort (source.addRoundingCuts integers).1) (fun _ => kept) failed)
    (ht : kept t) :
    Ends (roundingRounds effort integers rounds t) (fun _ => kept) failed := by
  induction rounds generalizing t with
  | zero => exact hspent t ht
  | succ rounds ih =>
    rw [roundingRounds_succ]
    rw [roundingSources] at hround
    split
    · next hverdict =>
      rw [if_pos hverdict] at hround
      obtain ⟨hfirst, hrest⟩ := List.forall_mem_cons.1 hround
      split
      · next hadded =>
        have hsimplex := hfirst (by simpa using hadded) ht
        rw [if_pos hadded] at hrest
        cases houtcome : simplex effort (t.addRoundingCuts integers).1 with
        | error fault t' =>
          rw [houtcome] at hsimplex
          exact hsimplex
        | ok result t' =>
          rw [houtcome] at hsimplex hrest
          simp only at hrest ⊢
          split
          · next hshrinks =>
            rw [if_pos hshrinks] at hrest
            exact ih hrest hsimplex
          · exact hsimplex
      · exact ht
    · exact ht

theorem roundingRounds_kept (kept : Tableau α → Prop) {effort : Effort} {integers : List Nat}
    {rounds : Nat}
    (hround : ∀ source ∈ roundingSources effort integers rounds t,
      (source.addRoundingCuts integers).2 ≠ 0 → kept source →
        kept (finalState (simplex effort (source.addRoundingCuts integers).1)))
    (ht : kept t) : kept (finalState (roundingRounds effort integers rounds t)) :=
  (roundingRounds_ends kept (fun _ => kept) (fun _ ht => ht)
    (fun source hsource hadded hkept =>
      Ends.of_finalState (hround source hsource hadded hkept)) ht).finalState

/-- Cuts are derived from tableaus with an optimum. -/
theorem verdict_of_mem_roundingSources {effort : Effort} {integers : List Nat} {rounds : Nat}
    {source : Tableau α} (hsource : source ∈ roundingSources effort integers rounds t) :
    source.isFeasible = true ∧ source.isBounded = true := by
  induction rounds generalizing t with
  | zero => exact absurd hsource List.not_mem_nil
  | succ rounds ih =>
    rw [roundingSources] at hsource
    split at hsource
    · next hverdict =>
      rcases List.mem_cons.1 hsource with rfl | hrest
      · simpa using hverdict
      split at hrest
      · split at hrest
        · split at hrest
          · exact ih hrest
          · exact absurd hrest List.not_mem_nil
        · exact absurd hrest List.not_mem_nil
      · exact absurd hrest List.not_mem_nil
    · exact absurd hsource List.not_mem_nil

/-- Without cuts the rounds leave the tableau as it was. -/
theorem roundingRounds_of_no_cuts {effort : Effort} {integers : List Nat} {rounds : Nat}
    (h : roundingCount effort integers rounds t = 0) :
    finalState (roundingRounds effort integers rounds t) = t := by
  refine roundingRounds_kept (fun t' => t' = t) ?_ rfl
  intro source hsource hadded _
  exact absurd (List.sum_eq_zero_iff_forall_eq_nat.1 h _ (List.mem_map_of_mem hsource)) hadded

/-- The rounds add one row for every cut. -/
theorem height_roundingRounds (effort : Effort) (integers : List Nat) (rounds : Nat)
    (t : Tableau α) :
    (finalState (roundingRounds effort integers rounds t)).dictionary.height =
      t.dictionary.height + roundingCount effort integers rounds t := by
  induction rounds generalizing t with
  | zero => rfl
  | succ rounds ih =>
    have hheight := height_simplex effort (t.addRoundingCuts integers).1
    rw [height_addRoundingCuts] at hheight
    rw [roundingRounds_succ, roundingCount, roundingSources]
    split
    · rw [List.map_cons, List.sum_cons]
      split
      · cases houtcome : simplex effort (t.addRoundingCuts integers).1 with
        | error fault t' =>
          rw [houtcome] at hheight
          exact hheight
        | ok result t' =>
          rw [houtcome] at hheight
          simp only
          split
          · rw [ih t', roundingCount]
            change t'.dictionary.height = _ at hheight
            omega
          · exact hheight
      · next hadded =>
        have hzero : (t.addRoundingCuts integers).2 = 0 := by simpa using hadded
        rw [hzero]
        rfl
    · rfl

end MixedInteger.Tableau
