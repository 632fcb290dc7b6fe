import Mathlib.Data.List.Range
import Mathlib.Logic.Function.Iterate
import MixedInteger.Proofs.PivotRun
import MixedInteger.Proofs.Repetition
import MixedInteger.Proofs.Validity

/-!
# The trail of a phase

Each phase of the simplex method repeats one step: ask the tableau for a pivot and make
it.  The trail of a phase is what this gives when it is never interrupted; a run follows
it until no pivot is asked for, a repetition is found or the budget is used up.  Read as
exchanges of basic variables, the pivots of a run show that a reported repetition leads
from a basis back to the same basis.
-/

namespace MixedInteger

namespace Dictionary

variable {α : Type} [Scalar α] {d : Dictionary α} {r c : Nat}

def basis {α : Type} (d : Dictionary α) : Finset Nat :=
  (d.rows.filterMap d.basicAt).toFinset

omit [Scalar α] in
theorem mem_basis {index : Nat} :
    index ∈ d.basis ↔ ∃ r ∈ d.rows, d.basicAt r = some index := by
  rw [basis, List.mem_toFinset, List.mem_filterMap]

theorem mem_rows_pivot_iff {i : Nat} : i ∈ (d.pivot r c).rows ↔ i ∈ d.rows := by
  rw [mem_rows, mem_rows, height_pivot]

/-- A pivot exchanges its two variables in the basis. -/
theorem basis_pivot (h : d.IsNamed) (hr : r ∈ d.rows) {leaving entering : Nat}
    (hleaving : d.basicAt r = some leaving) (hentering : d.nonBasicAt c = some entering) :
    (d.pivot r c).basis = Pivot.exchange d.basis ⟨leaving, entering⟩ := by
  have hbasicAt (i : Nat) : (d.pivot r c).basicAt i =
      if i = r then some entering else d.basicAt i :=
    basicAt_exchange (mem_rows.1 hr).2 hleaving hentering i
  ext index
  rw [Pivot.exchange, Finset.mem_insert, Finset.mem_erase, mem_basis, mem_basis]
  constructor
  · rintro ⟨i, hi, hindex⟩
    rw [hbasicAt] at hindex
    split at hindex
    · exact .inl (Option.some.inj hindex).symm
    · next hir =>
      refine .inr ⟨?_, i, mem_rows_pivot_iff.1 hi, hindex⟩
      rintro rfl
      exact hir (h.basicAt_inj (mem_rows_pivot_iff.1 hi) hr hindex hleaving)
  · rintro (rfl | ⟨hne, i, hi, hindex⟩)
    · exact ⟨r, mem_rows_pivot_iff.2 hr, by rw [hbasicAt, if_pos rfl]⟩
    · refine ⟨i, mem_rows_pivot_iff.2 hi, ?_⟩
      rw [hbasicAt, if_neg, hindex]
      rintro rfl
      rw [hleaving, Option.some.injEq] at hindex
      exact hne hindex.symm

omit [Scalar α] in
theorem isPossible_basis (h : d.IsNamed) (hr : r ∈ d.rows) (hc : c ∈ d.columns)
    {leaving entering : Nat} (hleaving : d.basicAt r = some leaving)
    (hentering : d.nonBasicAt c = some entering) :
    Pivot.IsPossible d.basis ⟨leaving, entering⟩ := by
  refine ⟨mem_basis.2 ⟨r, hr, hleaving⟩, ?_⟩
  intro hmem
  obtain ⟨i, hi, hindex⟩ := mem_basis.1 hmem
  exact h.basicAt_ne_nonBasicAt hi hc hindex hentering rfl

end Dictionary

namespace Tableau

variable {α : Type} [Scalar α] {phase : Phase} {t t' : Tableau α} {r c budget n : Nat}
  {history : PivotHistory}

/-! ## Both phases at once -/

/-- The row and the column of the pivot that a phase asks for. -/
def nextPivot? (phase : Phase) (t : Tableau α) : Option (Nat × Nat) :=
  match phase with
  | .one =>
    match t.phaseOneStep with
    | .pivot r c => some (r, c)
    | _ => none
  | .two =>
    match t.phaseTwoStep with
    | .pivot r c => some (r, c)
    | _ => none

def phaseLoop (phase : Phase) : Nat → PivotHistory → Action α Unit :=
  match phase with
  | .one => phaseOneLoop
  | .two => phaseTwoLoop

def runPhase (phase : Phase) (effort : Effort) : Action α Unit :=
  match phase with
  | .one => phaseOne effort
  | .two => phaseTwo effort

def phasePivots (phase : Phase) : Nat → PivotHistory → Tableau α → List (PivotEvent α) :=
  match phase with
  | .one => phaseOnePivots
  | .two => phaseTwoPivots

theorem runPhase_eq (phase : Phase) (effort : Effort) (t : Tableau α) :
    runPhase phase effort t = phaseLoop phase effort.pivots .empty t := by
  cases phase <;> rfl

theorem phaseOneStep_of_nextPivot? (h : nextPivot? .one t = some (r, c)) :
    t.phaseOneStep = .pivot r c := by
  cases hstep : t.phaseOneStep <;> simp_all [nextPivot?]

theorem phaseTwoStep_of_nextPivot? (h : nextPivot? .two t = some (r, c)) :
    t.phaseTwoStep = .pivot r c := by
  cases hstep : t.phaseTwoStep <;> simp_all [nextPivot?]

theorem mem_of_nextPivot? (h : nextPivot? phase t = some (r, c)) :
    r ∈ t.dictionary.rows ∧ c ∈ t.dictionary.columns := by
  cases phase with
  | one =>
    obtain ⟨hrow, hcolumn⟩ := phaseOneStep_eq_pivot_iff.1 (phaseOneStep_of_nextPivot? h)
    exact ⟨mem_rows_of_violatedRow? hrow, mem_columns_of_repairingColumn? hcolumn⟩
  | two =>
    obtain ⟨entering, hentering, rfl, hleaving⟩ :=
      phaseTwoStep_eq_pivot_iff.1 (phaseTwoStep_of_nextPivot? h)
    exact ⟨mem_rows_of_leavingRow? hleaving, mem_columns_of_entering? hentering⟩

theorem phaseLoop_of_none (h : nextPivot? phase t = none) (budget : Nat)
    (history : PivotHistory) :
    phasePivots phase (budget + 1) history t = [] ∧
      ∃ t', phaseLoop phase (budget + 1) history t = .ok () t' := by
  cases phase with
  | one =>
    cases hstep : t.phaseOneStep with
    | feasible =>
      exact ⟨by simp [phasePivots, phaseOnePivots, hstep], _, phaseOneLoop_of_feasible hstep⟩
    | infeasible =>
      exact ⟨by simp [phasePivots, phaseOnePivots, hstep], _, phaseOneLoop_of_infeasible hstep⟩
    | pivot r c => simp [nextPivot?, hstep] at h
  | two =>
    cases hstep : t.phaseTwoStep with
    | optimal =>
      exact ⟨by simp [phasePivots, phaseTwoPivots, hstep], _, phaseTwoLoop_of_optimal hstep⟩
    | unbounded column =>
      exact ⟨by simp [phasePivots, phaseTwoPivots, hstep], _, phaseTwoLoop_of_unbounded hstep⟩
    | pivot r c => simp [nextPivot?, hstep] at h

theorem phaseLoop_of_nextPivot? (h : nextPivot? phase t = some (r, c)) :
    phaseLoop phase (budget + 1) history t =
      match notePivot phase history r c t with
      | .ok history' t' => phaseLoop phase budget history' (t'.pivot r c)
      | .error fault t' => .error fault t' := by
  cases phase with
  | one => exact phaseOneLoop_of_pivot (phaseOneStep_of_nextPivot? h)
  | two => exact phaseTwoLoop_of_pivot (phaseTwoStep_of_nextPivot? h)

theorem phasePivots_of_nextPivot? (h : nextPivot? phase t = some (r, c)) :
    phasePivots phase (budget + 1) history t =
      match notePivot phase history r c t with
      | .ok history' t' => ⟨t', r, c⟩ :: phasePivots phase budget history' (t'.pivot r c)
      | .error _ _ => [] := by
  cases hnote : notePivot phase history r c t with
  | ok history' t' =>
    cases phase with
    | one => simp only [phasePivots, phaseOnePivots, phaseOneStep_of_nextPivot? h, hnote]
    | two => simp only [phasePivots, phaseTwoPivots, phaseTwoStep_of_nextPivot? h, hnote]
  | error fault t' =>
    cases phase with
    | one => simp only [phasePivots, phaseOnePivots, phaseOneStep_of_nextPivot? h, hnote]
    | two => simp only [phasePivots, phaseTwoPivots, phaseTwoStep_of_nextPivot? h, hnote]

omit [Scalar α] in
theorem notePivot_of_checksCycles (hchecks : t.checksCycles = true) (phase : Phase)
    (history : PivotHistory) (r c : Nat) :
    notePivot phase history r c t =
      match (history.push (t.pivotAt r c)).findCycle with
      | some cycle => .error (Cause.cycle phase cycle : Fault) t
      | none => .ok (history.push (t.pivotAt r c)) t := by
  simp only [notePivot, bind, EStateM.bind, run_get, hchecks, if_true]
  cases (history.push (t.pivotAt r c)).findCycle <;> rfl

omit [Scalar α] in
theorem notePivot_of_not_checksCycles (hchecks : t.checksCycles = false) :
    notePivot phase history r c t = .ok history t := by
  simp only [notePivot, bind, EStateM.bind, run_get, hchecks]
  rfl

/-! ## The trail -/

def advance (phase : Phase) (t : Tableau α) : Tableau α :=
  match nextPivot? phase t with
  | some (r, c) => t.pivot r c
  | none => t

/-- The tableau after a number of pivots of a phase. -/
def trail (phase : Phase) (t : Tableau α) (n : Nat) : Tableau α :=
  (advance phase)^[n] t

def pivotOf (phase : Phase) (t : Tableau α) : Pivot :=
  match nextPivot? phase t with
  | some (r, c) => t.pivotAt r c
  | none => ⟨0, 0⟩

def pivotWord (phase : Phase) (t : Tableau α) (n : Nat) : PivotHistory :=
  ⟨((List.range n).map fun k => pivotOf phase (trail phase t k)).toArray⟩

theorem trail_succ (phase : Phase) (t : Tableau α) (n : Nat) :
    trail phase t (n + 1) = advance phase (trail phase t n) :=
  Function.iterate_succ_apply' _ _ _

theorem trail_succ_of_nextPivot? (h : nextPivot? phase (trail phase t n) = some (r, c)) :
    trail phase t (n + 1) = (trail phase t n).pivot r c := by
  rw [trail_succ, advance, h]

theorem pivotWord_succ (phase : Phase) (t : Tableau α) (n : Nat) :
    pivotWord phase t (n + 1) =
      (pivotWord phase t n).push (pivotOf phase (trail phase t n)) := by
  rw [pivotWord, pivotWord, PivotHistory.push, List.push_toArray, List.range_succ, List.map_append]
  rfl

theorem getElem?_pivotWord {k : Nat} (hk : k < n) :
    (pivotWord phase t n).pivots[k]? = some (pivotOf phase (trail phase t k)) := by
  simp [pivotWord, hk]

theorem length_pivotWord (phase : Phase) (t : Tableau α) (n : Nat) :
    (pivotWord phase t n).length = n := by
  simp [pivotWord, PivotHistory.length]

theorem sameFrame_advance (phase : Phase) (t : Tableau α) : SameFrame t (advance phase t) := by
  unfold advance
  split
  · exact sameFrame_pivot t _ _
  · exact SameFrame.refl t

theorem sameFrame_trail (phase : Phase) (t : Tableau α) (n : Nat) :
    SameFrame t (trail phase t n) := by
  induction n with
  | zero => exact SameFrame.refl t
  | succ n ih =>
    rw [trail_succ]
    exact ih.trans (sameFrame_advance phase _)

/-- Two tableaus of a trail. -/
theorem sameFrame_trail_trail (phase : Phase) (t : Tableau α) (first second : Nat) :
    SameFrame (trail phase t first) (trail phase t second) := by
  have hfirst := sameFrame_trail phase t first
  have hsecond := sameFrame_trail phase t second
  exact ⟨hsecond.precision.trans hfirst.precision.symm, hsecond.pool.trans hfirst.pool.symm,
    hsecond.arena.trans hfirst.arena.symm, hsecond.snapshot.trans hfirst.snapshot.symm,
    hsecond.checksCycles.trans hfirst.checksCycles.symm⟩

/-! ## A run follows the trail -/

/-- How a phase that looks for repetitions ends after `n` pivots. -/
inductive EndsAfter (phase : Phase) (t : Tableau α) (budget n : Nat) :
    EStateM.Result Fault (Tableau α) Unit → Prop where
  | settled (t' : Tableau α) (hnext : nextPivot? phase (trail phase t n) = none) :
      EndsAfter phase t budget n (.ok () t')
  | repeated {cycle : Cycle} (hnext : nextPivot? phase (trail phase t n) ≠ none)
      (hcycle : (pivotWord phase t (n + 1)).findCycle = some cycle) :
      EndsAfter phase t budget n (.error (Cause.cycle phase cycle : Fault) (trail phase t n))
  | exhausted (hbudget : n = budget) :
      EndsAfter phase t budget n (.error (Cause.outOfSteps : Fault) (trail phase t n))

/-- A phase that looks for repetitions makes the first pivots of its trail, among which
there is no repetition yet. -/
structure FollowsTrail (phase : Phase) (t : Tableau α) (n first budget : Nat)
    (events : List (PivotEvent α)) (outcome : EStateM.Result Fault (Tableau α) Unit) : Prop where
  first_le : first ≤ n
  before_eq : events.map PivotEvent.before = (List.range' first (n - first)).map (trail phase t)
  asks : ∀ k, first ≤ k → k < n → nextPivot? phase (trail phase t k) ≠ none
  no_cycle : ∀ k, first < k → k ≤ n → (pivotWord phase t k).findCycle = none
  ends : EndsAfter phase t budget n outcome

theorem phaseLoop_followsTrail (hchecks : t.checksCycles = true) (phase : Phase)
    (budget first : Nat) :
    ∃ n, FollowsTrail phase t n first (first + budget)
      (phasePivots phase budget (pivotWord phase t first) (trail phase t first))
      (phaseLoop phase budget (pivotWord phase t first) (trail phase t first)) := by
  induction budget generalizing first with
  | zero =>
    refine ⟨first, le_rfl, ?_, by omega, by omega, ?_⟩
    · rw [Nat.sub_self]
      cases phase <;> rfl
    · have hloop : phaseLoop phase 0 (pivotWord phase t first) (trail phase t first) =
          .error (Cause.outOfSteps : Fault) (trail phase t first) := by
        cases phase <;> rfl
      rw [hloop]
      exact .exhausted rfl
  | succ budget ih =>
    cases hnext : nextPivot? phase (trail phase t first) with
    | none =>
      obtain ⟨hpivots, t', hloop⟩ := phaseLoop_of_none hnext budget
        (pivotWord phase t first)
      rw [hpivots, hloop]
      exact ⟨first, le_rfl, by simp, by omega, by omega, .settled t' hnext⟩
    | some place =>
      obtain ⟨r, c⟩ := place
      have hword : (pivotWord phase t first).push ((trail phase t first).pivotAt r c) =
          pivotWord phase t (first + 1) := by
        rw [pivotWord_succ, pivotOf, hnext]
      have hnote := notePivot_of_checksCycles
        ((sameFrame_trail phase t first).checksCycles.trans hchecks) phase
        (pivotWord phase t first) r c
      rw [phaseLoop_of_nextPivot? hnext, phasePivots_of_nextPivot? hnext]
      rw [hword] at hnote
      cases hcycle : (pivotWord phase t (first + 1)).findCycle with
      | some cycle =>
        rw [hcycle] at hnote
        rw [hnote]
        refine ⟨first, le_rfl, by simp, by omega, by omega, ?_⟩
        exact .repeated (by simp [hnext]) hcycle
      | none =>
        rw [hcycle] at hnote
        rw [hnote]
        obtain ⟨n, hn⟩ := ih (first + 1)
        have hle := hn.first_le
        rw [trail_succ_of_nextPivot? hnext, Nat.add_right_comm] at hn
        refine ⟨n, by omega, ?_, ?_, ?_, hn.ends⟩
        · have hrange : n - first = n - (first + 1) + 1 := by omega
          rw [hrange, List.range'_succ, List.map_cons, List.map_cons, hn.before_eq]
        · intro k hfirst hk
          rcases Nat.eq_or_lt_of_le hfirst with rfl | hlater
          · simp [hnext]
          · exact hn.asks k hlater hk
        · intro k hfirst hk
          rcases Nat.eq_or_lt_of_le hfirst with rfl | hlater
          · exact hcycle
          · exact hn.no_cycle k hlater hk

theorem runPhase_followsTrail (hchecks : t.checksCycles = true) (phase : Phase)
    (effort : Effort) :
    ∃ n, FollowsTrail phase t n 0 effort.pivots (phasePivots phase effort.pivots .empty t)
      (runPhase phase effort t) := by
  rw [runPhase_eq]
  have hfollows := phaseLoop_followsTrail hchecks phase effort.pivots 0
  rw [Nat.zero_add] at hfollows
  exact hfollows

/-- The first repetition along the trail is reported, with the tableau before the pivot
that completes it. -/
theorem runPhase_eq_cycle {cycle : Cycle} (effort : Effort) (hchecks : t.checksCycles = true)
    (hbudget : n < effort.pivots) (hasks : ∀ k ≤ n, nextPivot? phase (trail phase t k) ≠ none)
    (hnone : ∀ k ≤ n, (pivotWord phase t k).findCycle = none)
    (hcycle : (pivotWord phase t (n + 1)).findCycle = some cycle) :
    runPhase phase effort t = .error (Cause.cycle phase cycle : Fault) (trail phase t n) := by
  obtain ⟨m, hfollows⟩ := runPhase_followsTrail hchecks phase effort
  have hends := hfollows.ends
  have hle : m ≤ n := by
    by_contra hlater
    have hearlier := hfollows.no_cycle (n + 1) (Nat.succ_pos n) (not_le.1 hlater)
    rw [hcycle] at hearlier
    exact absurd hearlier (by simp)
  generalize runPhase phase effort t = outcome at hends
  cases hends with
  | settled t' hnext => exact absurd hnext (hasks m hle)
  | exhausted hm => omega
  | repeated hnext hfound =>
    rcases Nat.eq_or_lt_of_le hle with rfl | hearlier
    · rw [hcycle, Option.some.injEq] at hfound
      rw [hfound]
    · rw [hnone (m + 1) hearlier] at hfound
      exact absurd hfound (by simp)

/-- Only a tableau that looks for repetitions reports one. -/
theorem checksCycles_of_cycle {named : Phase} {cycle : Cycle}
    (h : phaseLoop phase budget history t = .error (Cause.cycle named cycle : Fault) t') :
    t.checksCycles = true := by
  rw [← Bool.not_eq_false]
  intro hchecks
  induction budget generalizing history t with
  | zero => cases phase <;> simp [phaseLoop, phaseOneLoop, phaseTwoLoop, raise] at h <;> cases h
  | succ budget ih =>
    cases hnext : nextPivot? phase t with
    | none =>
      obtain ⟨-, final, hloop⟩ := phaseLoop_of_none hnext budget history
      rw [hloop] at h
      exact absurd h (by simp)
    | some place =>
      rw [phaseLoop_of_nextPivot? hnext, notePivot_of_not_checksCycles hchecks] at h
      exact ih h hchecks

/-! ## Bases along the trail -/

theorem isNamed_advance (h : t.dictionary.IsNamed) : (advance phase t).dictionary.IsNamed := by
  unfold advance
  split
  · next hnext =>
    obtain ⟨hr, hc⟩ := mem_of_nextPivot? hnext
    exact ⟨(h.exchange hr hc).1, (h.exchange hr hc).2⟩
  · exact h

theorem isNamed_trail (h : t.dictionary.IsNamed) (phase : Phase) (n : Nat) :
    (trail phase t n).dictionary.IsNamed := by
  induction n with
  | zero => exact h
  | succ n ih =>
    rw [trail_succ]
    exact isNamed_advance ih

/-- The next pivot of a phase exchanges a basic and a non-basic variable. -/
theorem basis_advance (h : t.dictionary.IsNamed) (hnext : nextPivot? phase t ≠ none) :
    Pivot.IsPossible t.dictionary.basis (pivotOf phase t) ∧
      (advance phase t).dictionary.basis =
        Pivot.exchange t.dictionary.basis (pivotOf phase t) := by
  obtain ⟨⟨r, c⟩, hplace⟩ := Option.ne_none_iff_exists'.1 hnext
  obtain ⟨hr, hc⟩ := mem_of_nextPivot? hplace
  obtain ⟨leaving, hleaving⟩ := h.exists_basicAt hr
  obtain ⟨entering, hentering⟩ := h.exists_nonBasicAt hc
  have hpivot : pivotOf phase t = ⟨leaving, entering⟩ := by
    rw [pivotOf, hplace]
    simp only [pivotAt, hleaving, hentering, Option.getD_some]
  rw [hpivot, advance, hplace]
  exact ⟨Dictionary.isPossible_basis h hr hc hleaving hentering,
    Dictionary.basis_pivot h hr hleaving hentering⟩

/-- A stretch of the trail makes its pivots one after the other. -/
theorem arePossible_trail (h : t.dictionary.IsNamed) (start length : Nat)
    (hasks : ∀ k, start ≤ k → k < start + length → nextPivot? phase (trail phase t k) ≠ none) :
    Pivot.ArePossible (trail phase t start).dictionary.basis
        ((List.range' start length).map fun k => pivotOf phase (trail phase t k)) ∧
      ((List.range' start length).map fun k => pivotOf phase (trail phase t k)).foldl
          Pivot.exchange (trail phase t start).dictionary.basis =
        (trail phase t (start + length)).dictionary.basis := by
  induction length generalizing start with
  | zero => exact ⟨trivial, rfl⟩
  | succ length ih =>
    obtain ⟨hpossible, hbasis⟩ := basis_advance (isNamed_trail h phase start)
      (hasks start le_rfl (by omega))
    rw [← trail_succ] at hbasis
    obtain ⟨hrest, hfinal⟩ := ih (start + 1)
      fun k hfirst hlast => hasks k (by omega) (by omega)
    rw [hbasis] at hrest hfinal
    rw [List.range'_succ, List.map_cons, List.foldl_cons, hfinal]
    exact ⟨⟨hpossible, hrest⟩, by rw [Nat.add_right_comm, Nat.add_assoc]⟩

/-- A repetition along the trail begins and ends with the same basis. -/
theorem basis_trail_of_repeats (h : t.dictionary.IsNamed) {start length : Nat}
    (hasks : ∀ k < n, nextPivot? phase (trail phase t k) ≠ none)
    (hrepeats : (pivotWord phase t n).Repeats start length) :
    (trail phase t start).dictionary.basis = (trail phase t (start + length)).dictionary.basis := by
  have hwithin := hrepeats.within
  rw [length_pivotWord] at hwithin
  obtain ⟨hfirst, hmiddle⟩ := arePossible_trail h start length
    fun k _ hk => hasks k (by omega)
  obtain ⟨hsecond, -⟩ := arePossible_trail h (start + length) length
    fun k _ hk => hasks k (by omega)
  have hblocks : ((List.range' (start + length) length).map fun k =>
      pivotOf phase (trail phase t k)) =
        (List.range' start length).map fun k => pivotOf phase (trail phase t k) := by
    apply List.ext_getElem (by simp)
    intro offset hleft hright
    have hoffset : offset < length := by simpa using hleft
    have hequal := hrepeats.equal offset hoffset
    rw [getElem?_pivotWord (by omega), getElem?_pivotWord (by omega), Option.some.injEq] at hequal
    simpa using hequal.symm
  rw [hblocks, ← hmiddle] at hsecond
  rw [← hmiddle]
  exact (Pivot.foldl_exchange_eq_self hfirst hsecond).symm

/-! ## Reported repetitions -/

/-- The tableaus of a run of a phase: the one before each pivot, and the one at which the
run ended. -/
def visited (phase : Phase) (effort : Effort) (t : Tableau α) : List (Tableau α) :=
  (phasePivots phase effort.pivots .empty t).map PivotEvent.before ++
    [finalState (runPhase phase effort t)]

/-- A reported repetition is one of bases: before the first pivot of the block that
repeats, and again after the block, the run has the same basic variables. -/
theorem basis_eq_of_cycle (phase named : Phase) (effort : Effort) (t t' : Tableau α)
    (cycle : Cycle) (hnamed : t.dictionary.IsNamed)
    (hrun : runPhase phase effort t = .error (Cause.cycle named cycle : Fault) t') :
    named = phase ∧ 0 < cycle.length ∧
      ∃ first second, (visited phase effort t)[cycle.start]? = some first ∧
        (visited phase effort t)[cycle.start + cycle.length]? = some second ∧
        first.dictionary.basis = second.dictionary.basis := by
  have hchecks : t.checksCycles = true := by
    rw [runPhase_eq] at hrun
    exact checksCycles_of_cycle hrun
  obtain ⟨n, hfollows⟩ := runPhase_followsTrail hchecks phase effort
  have hends := hfollows.ends
  rw [hrun] at hends
  cases hends with
  | repeated hnext hcycle =>
    have hrepeats := PivotHistory.repeats_of_findCycle hcycle
    have hwithin := hrepeats.within
    have hpos := hrepeats.length_pos
    rw [length_pivotWord] at hwithin
    have hvisited : visited phase effort t = (List.range (n + 1)).map (trail phase t) := by
      rw [visited, hfollows.before_eq, hrun, List.range_succ, List.map_append,
        List.range_eq_range', Nat.sub_zero]
      rfl
    have hasks : ∀ k < n + 1, nextPivot? phase (trail phase t k) ≠ none := by
      intro k hk
      rcases Nat.eq_or_lt_of_le (Nat.le_of_lt_succ hk) with rfl | hearlier
      · exact hnext
      · exact hfollows.asks k (Nat.zero_le k) hearlier
    refine ⟨rfl, hpos, _, _, ?_, ?_, basis_trail_of_repeats hnamed hasks hrepeats⟩
    · rw [hvisited, List.getElem?_map, List.getElem?_range (by omega)]
      rfl
    · rw [hvisited, List.getElem?_map, List.getElem?_range (by omega)]
      rfl

/-- Two rows at their bounds, on which the second phase runs in a circle of six pivots. -/
def circling : Tableau Rat :=
  { Tableau.blank 1e-9 with
    dictionary :=
      { matrix := #[#[0, 10, -57, -9, -24], #[0, 1 / 2, -11 / 2, -5 / 2, 9],
          #[0, 1 / 2, -3 / 2, -1 / 2, 1]]
        basic := #[none, some 4, some 5]
        nonBasic := #[none, some 0, some 1, some 2, some 3]
        rowOf := ⟨#[none, none, none, none, some 1, some 2]⟩
        columnOf := ⟨#[some 1, some 2, some 3, some 4]⟩
        secondary := [] } }

theorem basis_eq_of_cycle_circling :
    ∃ t', runPhase .two ⟨16, 0, 0, fun _ => 0⟩ circling =
        .error (Cause.cycle .two ⟨0, 6⟩ : Fault) t' ∧
      ∃ first second, (visited .two ⟨16, 0, 0, fun _ => 0⟩ circling)[0]? = some first ∧
        (visited .two ⟨16, 0, 0, fun _ => 0⟩ circling)[6]? = some second ∧
        first.dictionary.basis = second.dictionary.basis := by
  have hasks : ∀ k ≤ 11, nextPivot? .two (trail .two circling k) ≠ none := by decide +kernel
  -- The pivots are computed first, so that the search for a block compares numbers only.
  have hword : ∀ k ≤ 12, pivotWord .two circling k =
      ⟨(#[⟨4, 0⟩, ⟨5, 1⟩, ⟨0, 2⟩, ⟨1, 3⟩, ⟨2, 4⟩, ⟨3, 5⟩, ⟨4, 0⟩, ⟨5, 1⟩, ⟨0, 2⟩, ⟨1, 3⟩, ⟨2, 4⟩,
        ⟨3, 5⟩] : Array Pivot).take k⟩ := by
    decide +kernel
  have hnone : ∀ k ≤ 11, (pivotWord .two circling k).findCycle = none := by
    intro k hk
    rw [hword k (by omega)]
    revert k
    decide +kernel
  have hcycle : (pivotWord .two circling 12).findCycle = some ⟨0, 6⟩ := by
    rw [hword 12 le_rfl]
    decide +kernel
  have hnamed : circling.dictionary.IsNamed :=
    (hasBasis_of_validate (by decide +kernel) (by decide +kernel)).toIsNamed
  have hrun := runPhase_eq_cycle ⟨16, 0, 0, fun _ => 0⟩ rfl (by decide) hasks hnone hcycle
  obtain ⟨-, -, first, second, hfirst, hsecond, hbasis⟩ :=
    basis_eq_of_cycle .two .two _ circling _ ⟨0, 6⟩ hnamed hrun
  exact ⟨_, hrun, first, second, hfirst, hsecond, hbasis⟩

end Tableau

end MixedInteger
