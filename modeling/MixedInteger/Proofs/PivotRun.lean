import MixedInteger.Proofs.BasisChanges
import MixedInteger.Proofs.Outcome
import MixedInteger.Proofs.Selection
import MixedInteger.Tableau.Simplex

/-!
# The pivots of a run

The simplex method changes a dictionary by pivots alone.  `simplexPivots` lists the
pivots of a run in order, each with the tableau on which it was made, also for a
run that ends with a fault.  What holds of all of them can be read off the list:
the final dictionary is reached from the first one by exactly these pivots, and
nothing but the dictionary and the verdict changes.
-/

namespace MixedInteger

/-- A pivot of a run: the tableau on which it was made, its row and its column. -/
structure PivotEvent (α : Type) where
  before : Tableau α
  row : Nat
  column : Nat

namespace Dictionary

variable {α : Type} [Scalar α]

/-- One dictionary is reached from another by pivots of a certain kind. -/
inductive PivotsTo (allowed : Dictionary α → Nat → Nat → Prop) :
    Dictionary α → Dictionary α → Prop where
  | refl (d : Dictionary α) : PivotsTo allowed d d
  | step {d final : Dictionary α} {r c : Nat} (hr : r ∈ d.rows) (hc : c ∈ d.columns)
      (hallowed : allowed d r c) (hrest : PivotsTo allowed (d.pivot r c) final) :
      PivotsTo allowed d final

namespace PivotsTo

variable {allowed : Dictionary α → Nat → Nat → Prop} {d middle final : Dictionary α}

theorem trans (hfirst : PivotsTo allowed d middle) (hrest : PivotsTo allowed middle final) :
    PivotsTo allowed d final := by
  induction hfirst with
  | refl d => exact hrest
  | step hr hc hallowed _ ih => exact step hr hc hallowed (ih hrest)

/-- What every pivot of the kind preserves, holds in the end. -/
theorem invariant {kept : Dictionary α → Prop}
    (hkept : ∀ d r c, r ∈ d.rows → c ∈ d.columns → allowed d r c → kept d → kept (d.pivot r c))
    (hrun : PivotsTo allowed d final) (hd : kept d) : kept final := by
  induction hrun with
  | refl d => exact hd
  | step hr hc hallowed _ ih => exact ih (hkept _ _ _ hr hc hallowed hd)

theorem consistent (hrun : PivotsTo allowed d final) (hd : d.IsConsistent) :
    final.IsConsistent :=
  hrun.invariant (fun _ _ _ hr hc _ h => h.pivot hr hc) hd

theorem hasBasis (hrun : PivotsTo allowed d final) (hd : d.HasBasis) : final.HasBasis :=
  hrun.invariant (fun _ _ _ hr hc _ h => h.pivot hr hc) hd

theorem height_eq (hrun : PivotsTo allowed d final) : final.height = d.height :=
  hrun.invariant (fun d r c _ _ _ hkept => (height_pivot d r c).trans hkept) rfl

theorem width_eq (hrun : PivotsTo allowed d final) : final.width = d.width :=
  hrun.invariant (fun d r c _ _ _ hkept => (width_pivot d r c).trans hkept) rfl

theorem mentions (hrun : PivotsTo allowed d final) (hd : d.IsConsistent) (index : Nat) :
    final.Mentions index ↔ d.Mentions index := by
  induction hrun with
  | refl d => exact Iff.rfl
  | step hr hc _ _ ih =>
    exact (ih (hd.pivot hr hc)).trans (mentions_pivot hd.isNamed hr hc index)

end PivotsTo

end Dictionary

namespace Tableau

/-! ## Choices of the two phases -/

section Choices

variable {α : Type} [Scalar α] {t : Tableau α} {r c : Nat}

theorem mem_rows_of_violatedRow? (h : t.violatedRow? = some r) : r ∈ t.dictionary.rows := by
  obtain ⟨mark, hmem⟩ := mem_of_select_eq_some h
  obtain ⟨r', hr', heq⟩ := List.mem_map.1 hmem
  rw [Prod.mk.injEq] at heq
  rw [← heq.1]
  exact (List.mem_filter.1 hr').1

theorem mem_columns_of_repairingColumn? (h : t.repairingColumn? r = some c) :
    c ∈ t.dictionary.columns := by
  obtain ⟨mark, hmem⟩ := mem_of_select_eq_some h
  obtain ⟨c', hc', heq⟩ := List.mem_map.1 hmem
  rw [Prod.mk.injEq] at heq
  rw [← heq.1]
  exact (List.mem_filter.1 hc').1

theorem phaseOneStep_eq_pivot_iff :
    t.phaseOneStep = .pivot r c ↔ t.violatedRow? = some r ∧ t.repairingColumn? r = some c := by
  unfold phaseOneStep
  cases hrow : t.violatedRow? with
  | none => simp
  | some r' =>
    simp only
    cases hcolumn : t.repairingColumn? r' with
    | none =>
      simp only [reduceCtorEq, Option.some.injEq, false_iff, not_and]
      rintro rfl
      simp [hcolumn]
    | some c' =>
      simp only [PhaseOneStep.pivot.injEq, Option.some.injEq]
      constructor
      · rintro ⟨rfl, rfl⟩
        exact ⟨rfl, hcolumn⟩
      · rintro ⟨rfl, hsome⟩
        rw [hcolumn, Option.some.injEq] at hsome
        exact ⟨rfl, hsome⟩

theorem phaseOneStep_eq_infeasible_iff :
    t.phaseOneStep = .infeasible ↔
      ∃ r, t.violatedRow? = some r ∧ t.repairingColumn? r = none := by
  unfold phaseOneStep
  cases hrow : t.violatedRow? with
  | none => simp
  | some r =>
    simp only [Option.some.injEq, exists_eq_left']
    cases t.repairingColumn? r <;> simp

theorem phaseOneStep_eq_feasible_iff : t.phaseOneStep = .feasible ↔ t.violatedRow? = none := by
  unfold phaseOneStep
  cases hrow : t.violatedRow? with
  | none => simp
  | some r =>
    simp only [reduceCtorEq, iff_false]
    cases t.repairingColumn? r <;> simp

theorem column_promise (t : Tableau α) (reducedCosts : Array α) (c : Nat) :
    (t.promise reducedCosts c).1.column = c := by
  unfold promise
  simp only
  split <;> rfl

theorem mem_of_mostPromising? {reducedCosts : Array α} {columns : List Nat}
    {entering : Entering} (h : t.mostPromising? reducedCosts columns = some entering) :
    entering.column ∈ columns := by
  obtain ⟨mark, hmem⟩ := mem_of_select_eq_some h
  obtain ⟨c', hc', heq⟩ := List.mem_map.1 hmem
  have hcolumn : (t.promise reducedCosts c').1.column = entering.column := by rw [heq]
  rw [← hcolumn, column_promise]
  exact hc'

theorem mem_of_enteringAmong? {columns : List Nat} {objectives : List (Array α)}
    {entering : Entering} (h : t.enteringAmong? columns objectives = some entering) :
    entering.column ∈ columns := by
  induction objectives generalizing columns with
  | nil => simp [enteringAmong?] at h
  | cons reducedCosts lower ih =>
    rw [enteringAmong?] at h
    cases hmost : t.mostPromising? reducedCosts columns with
    | some found =>
      simp only [hmost, Option.some.injEq] at h
      rw [← h]
      exact mem_of_mostPromising? hmost
    | none =>
      simp only [hmost] at h
      exact (List.mem_filter.1 (ih h)).1

theorem mem_columns_of_entering? {entering : Entering} (h : t.entering? = some entering) :
    entering.column ∈ t.dictionary.columns :=
  mem_of_enteringAmong? h

theorem mem_rows_of_leavingRow? {entering : Entering} (h : t.leavingRow? entering = some r) :
    r ∈ t.dictionary.rows := by
  unfold leavingRow? at h
  simp only at h
  split at h
  · rename_i r' hfind
    rw [Option.some.injEq] at h
    subst h
    exact (List.mem_filter.1 (List.mem_of_find?_eq_some hfind)).1
  · obtain ⟨mark, hmem⟩ := mem_of_select_eq_some h
    obtain ⟨r', hr', heq⟩ := List.mem_map.1 hmem
    rw [Prod.mk.injEq] at heq
    rw [← heq.1]
    exact (List.mem_filter.1 (List.mem_filter.1 hr').1).1

theorem phaseTwoStep_eq_pivot_iff :
    t.phaseTwoStep = .pivot r c ↔
      ∃ entering, t.entering? = some entering ∧ entering.column = c ∧
        t.leavingRow? entering = some r := by
  unfold phaseTwoStep
  cases hentering : t.entering? with
  | none => simp
  | some entering =>
    simp only
    cases hleaving : t.leavingRow? entering with
    | none =>
      simp only [reduceCtorEq, Option.some.injEq, false_iff, not_exists, not_and]
      rintro other rfl _
      simp [hleaving]
    | some r' =>
      simp only [PhaseTwoStep.pivot.injEq, Option.some.injEq]
      constructor
      · rintro ⟨rfl, rfl⟩
        exact ⟨entering, rfl, rfl, hleaving⟩
      · rintro ⟨other, rfl, hcolumn, hsome⟩
        rw [hleaving, Option.some.injEq] at hsome
        exact ⟨hsome, hcolumn⟩

theorem phaseTwoStep_eq_optimal_iff : t.phaseTwoStep = .optimal ↔ t.entering? = none := by
  unfold phaseTwoStep
  cases hentering : t.entering? with
  | none => simp
  | some entering =>
    simp only [reduceCtorEq, iff_false]
    cases t.leavingRow? entering <;> simp

theorem phaseTwoStep_eq_unbounded_iff :
    t.phaseTwoStep = .unbounded c ↔
      ∃ entering, t.entering? = some entering ∧ entering.column = c ∧
        t.leavingRow? entering = none := by
  unfold phaseTwoStep
  cases hentering : t.entering? with
  | none => simp
  | some entering =>
    simp only [Option.some.injEq, exists_eq_left']
    cases t.leavingRow? entering <;> simp

end Choices

/-! ## Runs -/

/-- Two tableaus that differ in their dictionary and their verdict alone. -/
structure SameFrame {α : Type} (t t' : Tableau α) : Prop where
  precision : t'.precision = t.precision
  pool : t'.pool = t.pool
  arena : t'.arena = t.arena
  snapshot : t'.snapshot = t.snapshot
  checksCycles : t'.checksCycles = t.checksCycles

theorem SameFrame.refl {α : Type} (t : Tableau α) : SameFrame t t :=
  ⟨rfl, rfl, rfl, rfl, rfl⟩

theorem SameFrame.trans {α : Type} {t t' t'' : Tableau α} (hfirst : SameFrame t t')
    (hsecond : SameFrame t' t'') : SameFrame t t'' :=
  ⟨hsecond.precision.trans hfirst.precision, hsecond.pool.trans hfirst.pool,
    hsecond.arena.trans hfirst.arena, hsecond.snapshot.trans hfirst.snapshot,
    hsecond.checksCycles.trans hfirst.checksCycles⟩

theorem SameFrame.lookup? {α : Type} {t t' : Tableau α} (h : SameFrame t t') (index : Nat) :
    t'.lookup? index = t.lookup? index := by
  rw [Tableau.lookup?, Tableau.lookup?, h.arena]

theorem SameFrame.isFree {α : Type} {t t' : Tableau α} (h : SameFrame t t') (index : Option Nat) :
    t'.isFree index = t.isFree index := by
  rw [Tableau.isFree, Tableau.isFree]
  congr 1
  cases index with
  | none => rfl
  | some index => exact h.lookup? index

section Congruence

variable {α : Type} [Scalar α] {t t' : Tableau α}

/-- Two tableaus with the same dictionary, precision and free variables. -/
structure ChoosesAlike (t t' : Tableau α) : Prop where
  precision : t'.precision = t.precision
  dictionary : t'.dictionary = t.dictionary
  isFree : ∀ index, t'.isFree index = t.isFree index

omit [Scalar α] in
theorem SameFrame.choosesAlike (h : SameFrame t t') (hdictionary : t'.dictionary = t.dictionary) :
    ChoosesAlike t t' :=
  ⟨h.precision, hdictionary, h.isFree⟩

theorem ChoosesAlike.promise (h : ChoosesAlike t t') : t'.promise = t.promise := by
  funext reducedCosts c
  rw [Tableau.promise, Tableau.promise, h.dictionary, h.isFree]

theorem ChoosesAlike.enteringAmong? (h : ChoosesAlike t t') (columns : List Nat)
    (objectives : List (Array α)) :
    t'.enteringAmong? columns objectives = t.enteringAmong? columns objectives := by
  induction objectives generalizing columns with
  | nil => rfl
  | cons row lower ih =>
    rw [Tableau.enteringAmong?, Tableau.enteringAmong?, mostPromising?, mostPromising?,
      h.promise, h.precision]
    simp only [ih]

theorem ChoosesAlike.phaseOneStep (h : ChoosesAlike t t') :
    t'.phaseOneStep = t.phaseOneStep := by
  simp only [Tableau.phaseOneStep, violatedRow?, repairingColumn?, h.dictionary, h.precision,
    h.isFree]

theorem ChoosesAlike.phaseTwoStep (h : ChoosesAlike t t') :
    t'.phaseTwoStep = t.phaseTwoStep := by
  have hleaving (entering : Entering) : t'.leavingRow? entering = t.leavingRow? entering := by
    simp only [leavingRow?, h.dictionary, h.precision, h.isFree]
  simp only [Tableau.phaseTwoStep, entering?, h.enteringAmong?, h.dictionary, hleaving]

/-- The choices of phase one read the dictionary and the frame only. -/
theorem SameFrame.phaseOneStep (h : SameFrame t t') (hdictionary : t'.dictionary = t.dictionary) :
    t'.phaseOneStep = t.phaseOneStep :=
  (h.choosesAlike hdictionary).phaseOneStep

/-- The choices of phase two read the dictionary and the frame only. -/
theorem SameFrame.phaseTwoStep (h : SameFrame t t') (hdictionary : t'.dictionary = t.dictionary) :
    t'.phaseTwoStep = t.phaseTwoStep :=
  (h.choosesAlike hdictionary).phaseTwoStep

end Congruence

/-- Noting a pivot leaves the tableau alone. -/
theorem notePivot_cases {α : Type} (phase : Phase) (history : PivotHistory) (r c : Nat)
    (t : Tableau α) :
    (∃ history', notePivot phase history r c t = .ok history' t) ∨
      ∃ cycle, notePivot phase history r c t = .error (Cause.cycle phase cycle : Fault) t := by
  unfold notePivot
  simp only [bind, EStateM.bind, run_get]
  split
  · cases (history.push (t.pivotAt r c)).findCycle with
    | some cycle => exact .inr ⟨cycle, rfl⟩
    | none => exact .inl ⟨_, rfl⟩
  · exact .inl ⟨_, rfl⟩

section Runs

variable {α : Type} [Scalar α]

def phaseOnePivots : Nat → PivotHistory → Tableau α → List (PivotEvent α)
  | 0, _, _ => []
  | budget + 1, history, t =>
    match t.phaseOneStep with
    | .pivot r c =>
      match notePivot .one history r c t with
      | .ok history t => ⟨t, r, c⟩ :: phaseOnePivots budget history (t.pivot r c)
      | .error _ _ => []
    | _ => []

def phaseTwoPivots : Nat → PivotHistory → Tableau α → List (PivotEvent α)
  | 0, _, _ => []
  | budget + 1, history, t =>
    match t.phaseTwoStep with
    | .pivot r c =>
      match notePivot .two history r c t with
      | .ok history t => ⟨t, r, c⟩ :: phaseTwoPivots budget history (t.pivot r c)
      | .error _ _ => []
    | _ => []

/-- The state in which the simplex method begins. -/
def cleared (t : Tableau α) : Tableau α :=
  { t with isBounded := true, unboundedIndex := none }

def simplexPivots (effort : Effort) (t : Tableau α) : List (PivotEvent α) :=
  phaseOnePivots effort.pivots .empty t.cleared ++
    match phaseOne effort t.cleared with
    | .ok _ t => if t.isFeasible then phaseTwoPivots effort.pivots .empty t else []
    | .error _ _ => []

/-! ### One iteration of a loop -/

theorem phaseOneLoop_of_feasible {budget : Nat} {history : PivotHistory} {t : Tableau α}
    (hstep : t.phaseOneStep = .feasible) :
    phaseOneLoop (budget + 1) history t = .ok () { t with isFeasible := true } := by
  simp only [phaseOneLoop, bind, EStateM.bind, run_get, hstep]
  rfl

theorem phaseOneLoop_of_infeasible {budget : Nat} {history : PivotHistory} {t : Tableau α}
    (hstep : t.phaseOneStep = .infeasible) :
    phaseOneLoop (budget + 1) history t = .ok () { t with isFeasible := false } := by
  simp only [phaseOneLoop, bind, EStateM.bind, run_get, hstep]
  rfl

theorem phaseOneLoop_of_pivot {budget : Nat} {history : PivotHistory} {t : Tableau α} {r c : Nat}
    (hstep : t.phaseOneStep = .pivot r c) :
    phaseOneLoop (budget + 1) history t =
      match notePivot .one history r c t with
      | .ok history' t' => phaseOneLoop budget history' (t'.pivot r c)
      | .error fault t' => .error fault t' := by
  simp only [phaseOneLoop, bind, EStateM.bind, run_get, hstep]
  cases notePivot .one history r c t <;> rfl

theorem phaseTwoLoop_of_optimal {budget : Nat} {history : PivotHistory} {t : Tableau α}
    (hstep : t.phaseTwoStep = .optimal) :
    phaseTwoLoop (budget + 1) history t = .ok () t.recordOptimum := by
  simp only [phaseTwoLoop, bind, EStateM.bind, run_get, hstep]
  rfl

theorem phaseTwoLoop_of_unbounded {budget : Nat} {history : PivotHistory} {t : Tableau α}
    {column : Nat} (hstep : t.phaseTwoStep = .unbounded column) :
    phaseTwoLoop (budget + 1) history t = .ok () (t.recordUnbounded column) := by
  simp only [phaseTwoLoop, bind, EStateM.bind, run_get, hstep]
  rfl

theorem phaseTwoLoop_of_pivot {budget : Nat} {history : PivotHistory} {t : Tableau α} {r c : Nat}
    (hstep : t.phaseTwoStep = .pivot r c) :
    phaseTwoLoop (budget + 1) history t =
      match notePivot .two history r c t with
      | .ok history' t' => phaseTwoLoop budget history' (t'.pivot r c)
      | .error fault t' => .error fault t' := by
  simp only [phaseTwoLoop, bind, EStateM.bind, run_get, hstep]
  cases notePivot .two history r c t <;> rfl

theorem simplex_eq (effort : Effort) (t : Tableau α) :
    simplex effort t =
      match phaseOne effort t.cleared with
      | .ok _ t' => if t'.isFeasible then phaseTwo effort t' else .ok () t'
      | .error fault t' => .error fault t' := by
  simp only [simplex, bind, EStateM.bind, run_modify, run_get, cleared]
  cases phaseOne effort { t with isBounded := true, unboundedIndex := none } with
  | ok result t' =>
    simp only
    split <;> rfl
  | error fault t' => rfl

/-! ### Whole runs -/

theorem sameFrame_pivot (t : Tableau α) (r c : Nat) : SameFrame t (t.pivot r c) :=
  ⟨rfl, rfl, rfl, rfl, rfl⟩

section Allowed

variable (allowed : Dictionary α → Nat → Nat → Prop)

theorem phaseOneLoop_pivotsTo (budget : Nat) (history : PivotHistory) (t : Tableau α)
    (hpivots : ∀ event ∈ phaseOnePivots budget history t,
      allowed event.before.dictionary event.row event.column) :
    SameFrame t (finalState (phaseOneLoop budget history t)) ∧
      Dictionary.PivotsTo allowed t.dictionary
        (finalState (phaseOneLoop budget history t)).dictionary := by
  induction budget generalizing history t with
  | zero => exact ⟨SameFrame.refl t, .refl _⟩
  | succ budget ih =>
    cases hstep : t.phaseOneStep with
    | feasible =>
      rw [phaseOneLoop_of_feasible hstep]
      exact ⟨⟨rfl, rfl, rfl, rfl, rfl⟩, .refl _⟩
    | infeasible =>
      rw [phaseOneLoop_of_infeasible hstep]
      exact ⟨⟨rfl, rfl, rfl, rfl, rfl⟩, .refl _⟩
    | pivot r c =>
      rw [phaseOneLoop_of_pivot hstep]
      simp only [phaseOnePivots, hstep] at hpivots
      rcases notePivot_cases .one history r c t with ⟨history', hnote⟩ | ⟨cycle, hnote⟩
      · rw [hnote] at hpivots ⊢
        obtain ⟨hfirst, hrest⟩ := List.forall_mem_cons.1 hpivots
        obtain ⟨hframe, hrun⟩ := ih history' (t.pivot r c) hrest
        obtain ⟨hrow, hcolumn⟩ := phaseOneStep_eq_pivot_iff.1 hstep
        exact ⟨(sameFrame_pivot t r c).trans hframe,
          .step (mem_rows_of_violatedRow? hrow) (mem_columns_of_repairingColumn? hcolumn)
            hfirst hrun⟩
      · rw [hnote]
        exact ⟨SameFrame.refl t, .refl _⟩

theorem phaseTwoLoop_pivotsTo (budget : Nat) (history : PivotHistory) (t : Tableau α)
    (hpivots : ∀ event ∈ phaseTwoPivots budget history t,
      allowed event.before.dictionary event.row event.column) :
    SameFrame t (finalState (phaseTwoLoop budget history t)) ∧
      Dictionary.PivotsTo allowed t.dictionary
        (finalState (phaseTwoLoop budget history t)).dictionary := by
  induction budget generalizing history t with
  | zero => exact ⟨SameFrame.refl t, .refl _⟩
  | succ budget ih =>
    cases hstep : t.phaseTwoStep with
    | optimal =>
      rw [phaseTwoLoop_of_optimal hstep]
      exact ⟨⟨rfl, rfl, rfl, rfl, rfl⟩, .refl _⟩
    | unbounded column =>
      rw [phaseTwoLoop_of_unbounded hstep]
      exact ⟨⟨rfl, rfl, rfl, rfl, rfl⟩, .refl _⟩
    | pivot r c =>
      rw [phaseTwoLoop_of_pivot hstep]
      simp only [phaseTwoPivots, hstep] at hpivots
      rcases notePivot_cases .two history r c t with ⟨history', hnote⟩ | ⟨cycle, hnote⟩
      · rw [hnote] at hpivots ⊢
        obtain ⟨hfirst, hrest⟩ := List.forall_mem_cons.1 hpivots
        obtain ⟨hframe, hrun⟩ := ih history' (t.pivot r c) hrest
        obtain ⟨entering, hentering, rfl, hleaving⟩ := phaseTwoStep_eq_pivot_iff.1 hstep
        exact ⟨(sameFrame_pivot t r _).trans hframe,
          .step (mem_rows_of_leavingRow? hleaving) (mem_columns_of_entering? hentering)
            hfirst hrun⟩
      · rw [hnote]
        exact ⟨SameFrame.refl t, .refl _⟩

/-- The simplex method leads to its last dictionary by the pivots it lists, whether
it succeeds or not. -/
theorem simplex_pivotsTo (effort : Effort) (t : Tableau α)
    (hpivots : ∀ event ∈ simplexPivots effort t,
      allowed event.before.dictionary event.row event.column) :
    SameFrame t (finalState (simplex effort t)) ∧
      Dictionary.PivotsTo allowed t.dictionary (finalState (simplex effort t)).dictionary := by
  have hcleared : SameFrame t t.cleared := ⟨rfl, rfl, rfl, rfl, rfl⟩
  obtain ⟨hone, htwo⟩ := List.forall_mem_append.1 hpivots
  obtain ⟨hframe, hrun⟩ := phaseOneLoop_pivotsTo allowed effort.pivots .empty t.cleared hone
  change SameFrame t.cleared (finalState (phaseOne effort t.cleared)) at hframe
  change Dictionary.PivotsTo allowed t.dictionary
    (finalState (phaseOne effort t.cleared)).dictionary at hrun
  rw [simplex_eq]
  cases hphase : phaseOne effort t.cleared with
  | error fault t' =>
    rw [hphase] at hframe hrun
    exact ⟨hcleared.trans hframe, hrun⟩
  | ok result t' =>
    rw [hphase] at hframe hrun htwo
    simp only at htwo ⊢
    split
    · rename_i hfeasible
      rw [if_pos hfeasible] at htwo
      obtain ⟨hframe', hrun'⟩ := phaseTwoLoop_pivotsTo allowed effort.pivots .empty t' htwo
      exact ⟨(hcleared.trans hframe).trans hframe', hrun.trans hrun'⟩
    · exact ⟨hcleared.trans hframe, hrun⟩

end Allowed

/-- The simplex method changes nothing but the dictionary, by pivots, and the verdict. -/
theorem simplex_onlyPivots (effort : Effort) (t : Tableau α) :
    SameFrame t (finalState (simplex effort t)) ∧
      Dictionary.PivotsTo (fun _ _ _ => True) t.dictionary
        (finalState (simplex effort t)).dictionary :=
  simplex_pivotsTo (fun _ _ _ => True) effort t fun _ _ => trivial

theorem height_simplex (effort : Effort) (t : Tableau α) :
    (finalState (simplex effort t)).dictionary.height = t.dictionary.height :=
  (simplex_onlyPivots effort t).2.height_eq

/-- Every pivot of phase one is the one that its tableau asks for. -/
theorem mem_phaseOnePivots {budget : Nat} {history : PivotHistory} {t : Tableau α}
    {event : PivotEvent α} (hevent : event ∈ phaseOnePivots budget history t) :
    event.before.phaseOneStep = .pivot event.row event.column ∧ SameFrame t event.before := by
  induction budget generalizing history t with
  | zero => simp [phaseOnePivots] at hevent
  | succ budget ih =>
    cases hstep : t.phaseOneStep with
    | feasible => simp [phaseOnePivots, hstep] at hevent
    | infeasible => simp [phaseOnePivots, hstep] at hevent
    | pivot r c =>
      simp only [phaseOnePivots, hstep] at hevent
      rcases notePivot_cases .one history r c t with ⟨history', hnote⟩ | ⟨cycle, hnote⟩
      · rw [hnote] at hevent
        rcases List.mem_cons.1 hevent with rfl | hrest
        · exact ⟨hstep, SameFrame.refl t⟩
        · obtain ⟨hlater, hframe⟩ := ih hrest
          exact ⟨hlater, (sameFrame_pivot t r c).trans hframe⟩
      · rw [hnote] at hevent
        exact absurd hevent List.not_mem_nil

/-- Every pivot of phase two is the one that its tableau asks for. -/
theorem mem_phaseTwoPivots {budget : Nat} {history : PivotHistory} {t : Tableau α}
    {event : PivotEvent α} (hevent : event ∈ phaseTwoPivots budget history t) :
    event.before.phaseTwoStep = .pivot event.row event.column ∧ SameFrame t event.before := by
  induction budget generalizing history t with
  | zero => simp [phaseTwoPivots] at hevent
  | succ budget ih =>
    cases hstep : t.phaseTwoStep with
    | optimal => simp [phaseTwoPivots, hstep] at hevent
    | unbounded column => simp [phaseTwoPivots, hstep] at hevent
    | pivot r c =>
      simp only [phaseTwoPivots, hstep] at hevent
      rcases notePivot_cases .two history r c t with ⟨history', hnote⟩ | ⟨cycle, hnote⟩
      · rw [hnote] at hevent
        rcases List.mem_cons.1 hevent with rfl | hrest
        · exact ⟨hstep, SameFrame.refl t⟩
        · obtain ⟨hlater, hframe⟩ := ih hrest
          exact ⟨hlater, (sameFrame_pivot t r c).trans hframe⟩
      · rw [hnote] at hevent
        exact absurd hevent List.not_mem_nil

theorem mem_simplexPivots {effort : Effort} {t : Tableau α} {event : PivotEvent α}
    (hevent : event ∈ simplexPivots effort t) :
    (event.before.phaseOneStep = .pivot event.row event.column ∨
      event.before.phaseTwoStep = .pivot event.row event.column) ∧
      SameFrame t event.before := by
  have hcleared : SameFrame t t.cleared := ⟨rfl, rfl, rfl, rfl, rfl⟩
  rcases List.mem_append.1 hevent with hone | htwo
  · obtain ⟨hstep, hframe⟩ := mem_phaseOnePivots hone
    exact ⟨.inl hstep, hcleared.trans hframe⟩
  · have hrun := (phaseOneLoop_pivotsTo (fun _ _ _ => True) effort.pivots .empty t.cleared
      fun _ _ => trivial).1
    change SameFrame t.cleared (finalState (phaseOne effort t.cleared)) at hrun
    split at htwo
    · rename_i t' hphase
      rw [hphase] at hrun
      split at htwo
      · obtain ⟨hstep, hframe⟩ := mem_phaseTwoPivots htwo
        exact ⟨.inr hstep, (hcleared.trans hrun).trans hframe⟩
      · exact absurd htwo List.not_mem_nil
    · exact absurd htwo List.not_mem_nil

/-! ### Verdicts -/

/-- Phase one succeeds with the verdict of the tableau at which it stops. -/
theorem phaseOneLoop_eq_ok (kept : Tableau α → Prop) {budget : Nat} {history : PivotHistory}
    {t t' : Tableau α}
    (hkept : ∀ event ∈ phaseOnePivots budget history t, kept event.before →
      kept (event.before.pivot event.row event.column))
    (hok : phaseOneLoop budget history t = .ok () t') (ht : kept t) :
    ∃ last, kept last ∧
      (last.phaseOneStep = .feasible ∧ t' = { last with isFeasible := true } ∨
        last.phaseOneStep = .infeasible ∧ t' = { last with isFeasible := false }) := by
  induction budget generalizing history t with
  | zero => nomatch hok
  | succ budget ih =>
    cases hstep : t.phaseOneStep with
    | feasible =>
      rw [phaseOneLoop_of_feasible hstep] at hok
      injection hok with _ ht'
      exact ⟨t, ht, .inl ⟨hstep, ht'.symm⟩⟩
    | infeasible =>
      rw [phaseOneLoop_of_infeasible hstep] at hok
      injection hok with _ ht'
      exact ⟨t, ht, .inr ⟨hstep, ht'.symm⟩⟩
    | pivot r c =>
      rw [phaseOneLoop_of_pivot hstep] at hok
      simp only [phaseOnePivots, hstep] at hkept
      rcases notePivot_cases .one history r c t with ⟨history', hnote⟩ | ⟨cycle, hnote⟩
      · rw [hnote] at hkept hok
        obtain ⟨hfirst, hrest⟩ := List.forall_mem_cons.1 hkept
        exact ih hrest hok (hfirst ht)
      · rw [hnote] at hok
        exact absurd hok (by simp)

/-- Phase two succeeds with the verdict of the tableau at which it stops. -/
theorem phaseTwoLoop_eq_ok (kept : Tableau α → Prop) {budget : Nat} {history : PivotHistory}
    {t t' : Tableau α}
    (hkept : ∀ event ∈ phaseTwoPivots budget history t, kept event.before →
      kept (event.before.pivot event.row event.column))
    (hok : phaseTwoLoop budget history t = .ok () t') (ht : kept t) :
    ∃ last, kept last ∧
      (last.phaseTwoStep = .optimal ∧ t' = last.recordOptimum ∨
        ∃ column, last.phaseTwoStep = .unbounded column ∧
          t' = last.recordUnbounded column) := by
  induction budget generalizing history t with
  | zero => nomatch hok
  | succ budget ih =>
    cases hstep : t.phaseTwoStep with
    | optimal =>
      rw [phaseTwoLoop_of_optimal hstep] at hok
      injection hok with _ ht'
      exact ⟨t, ht, .inl ⟨hstep, ht'.symm⟩⟩
    | unbounded column =>
      rw [phaseTwoLoop_of_unbounded hstep] at hok
      injection hok with _ ht'
      exact ⟨t, ht, .inr ⟨column, hstep, ht'.symm⟩⟩
    | pivot r c =>
      rw [phaseTwoLoop_of_pivot hstep] at hok
      simp only [phaseTwoPivots, hstep] at hkept
      rcases notePivot_cases .two history r c t with ⟨history', hnote⟩ | ⟨cycle, hnote⟩
      · rw [hnote] at hkept hok
        obtain ⟨hfirst, hrest⟩ := List.forall_mem_cons.1 hkept
        exact ih hrest hok (hfirst ht)
      · rw [hnote] at hok
        exact absurd hok (by simp)

/-- A run of the simplex method that succeeds stops in phase one at an infeasible
tableau, or goes on from a feasible one in phase two. -/
theorem simplex_eq_ok {effort : Effort} {t t' : Tableau α} (hok : simplex effort t = .ok () t') :
    (∃ last : Tableau α, last.phaseOneStep = .infeasible ∧
        t' = { last with isFeasible := false }) ∨
      ∃ last start : Tableau α, last.phaseOneStep = .feasible ∧
        start = { last with isFeasible := true } ∧
        phaseOne effort t.cleared = .ok () start ∧ start.isBounded = true ∧
        phaseTwo effort start = .ok () t' ∧
        ∀ event ∈ phaseTwoPivots effort.pivots .empty start, event ∈ simplexPivots effort t := by
  rw [simplex_eq] at hok
  cases hphase : phaseOne effort t.cleared with
  | error fault start =>
    rw [hphase] at hok
    exact absurd hok (by simp)
  | ok result start =>
    obtain ⟨last, hbounded, hverdict⟩ := phaseOneLoop_eq_ok (fun t => t.isBounded = true)
      (fun _ _ hbefore => hbefore) hphase rfl
    rw [hphase] at hok
    rcases hverdict with ⟨hstep, rfl⟩ | ⟨hstep, rfl⟩
    · refine .inr ⟨last, _, hstep, rfl, rfl, hbounded, hok, ?_⟩
      intro event hevent
      apply List.mem_append_right
      rw [hphase]
      exact hevent
    · refine .inl ⟨last, hstep, ?_⟩
      injection hok with _ ht'
      exact ht'.symm

end Runs

end Tableau

end MixedInteger
