import MixedInteger.Proofs.Relaxation
import MixedInteger.Proofs.SearchState

/-!
# Solved nodes of a search

A node of a search is solved by runs of the simplex method on a relaxation of its branch.
As long as all tableaus of these runs are separated, the verdict of the node speaks about
the integral points of the branch: there are none if the node is infeasible, and the
rounded objective of the node bounds theirs if it has an optimum.  The first optimum of
all bounds every integral point.
-/

namespace MixedInteger

/-! ## Rounding -/

theorem roundRat_nonneg {value : Rat} (h : 0 ≤ value) : 0 ≤ roundRat value := by
  have hfloor : (0 : ℤ) ≤ (value + 1 / 2).floor := by
    rw [Rat.le_floor_iff]
    push_cast
    linarith
  rw [roundRat, if_pos h]
  exact_mod_cast hfloor

theorem roundRat_le_roundRat {left right : Rat} (h : left ≤ right) :
    roundRat left ≤ roundRat right := by
  by_cases hleft : 0 ≤ left
  · rw [roundRat, roundRat, if_pos hleft, if_pos (le_trans hleft h)]
    exact_mod_cast Rat.floor_monotone (by linarith)
  rcases le_or_gt 0 right with hright | hright
  · have hceil : (left - 1 / 2).ceil ≤ 0 := by
      rw [Rat.ceil_le_iff]
      push_cast
      linarith
    have hnonpos : roundRat left ≤ 0 := by
      rw [roundRat, if_neg hleft]
      exact_mod_cast hceil
    exact le_trans hnonpos (roundRat_nonneg hright)
  · have hceil : (left - 1 / 2).ceil ≤ (right - 1 / 2).ceil := by
      rw [Rat.ceil_le_iff]
      have hself := Rat.ceil_le_iff.1 (le_refl (right - 1 / 2).ceil)
      linarith
    rw [roundRat, roundRat, if_neg hleft, if_neg (not_le.2 hright)]
    exact_mod_cast hceil

namespace Tableau

theorem round_le_round {t : Tableau Rat} (hprecision : 0 < t.precision) {left right : Rat}
    (h : left ≤ right) : t.round left ≤ t.round right := by
  have hsteps : (0 : Rat) ≤ Scalar.round (1 / t.precision) :=
    roundRat_nonneg (le_of_lt (one_div_pos.2 hprecision))
  apply div_le_div_of_nonneg_right _ hsteps
  apply roundRat_le_roundRat
  apply mul_le_mul_of_nonneg_right _ hsteps
  linarith

theorem round_eq {t t' : Tableau Rat} (hprecision : t'.precision = t.precision) (value : Rat) :
    t'.round value = t.round value := by
  rw [round, round, hprecision]

/-! ## The record of optima -/

section Records

variable {α : Type} [Scalar α] {t t' : Tableau α}

/-- What a run of the simplex method that succeeds writes into the record: an optimum is
counted and evaluated, and the first one is kept apart. -/
inductive Records (t t' : Tableau α) : Prop
  | nothing (verdict : t'.isFeasible = false ∨ t'.isBounded = false)
      (optimaReached : t'.optimaReached = t.optimaReached)
      (rootEvaluation : t'.rootEvaluation = t.rootEvaluation)
  | optimum (evaluation : t'.evaluation = .finite t'.objectiveValue)
      (optimaReached : t'.optimaReached = t.optimaReached + 1)
      (rootEvaluation : t'.rootEvaluation =
        if t.optimaReached == 0 then t'.objectiveValue else t.rootEvaluation)

theorem simplex_records {effort : Effort} (hok : simplex effort t = .ok () t') :
    Records t t' := by
  rw [simplex_eq] at hok
  cases hphase : phaseOne effort t.cleared with
  | error fault start =>
    rw [hphase] at hok
    exact absurd hok (by simp)
  | ok result start =>
    rw [hphase] at hok
    obtain ⟨last, hlast, hverdict⟩ := phaseOneLoop_eq_ok
      (fun s => s.optimaReached = t.optimaReached ∧ s.rootEvaluation = t.rootEvaluation)
      (fun _ _ hbefore => hbefore) hphase ⟨rfl, rfl⟩
    rcases hverdict with ⟨-, rfl⟩ | ⟨-, rfl⟩
    · obtain ⟨stop, hstop, hend⟩ := phaseTwoLoop_eq_ok
        (fun s => s.optimaReached = t.optimaReached ∧ s.rootEvaluation = t.rootEvaluation)
        (fun _ _ hbefore => hbefore) hok hlast
      rcases hend with ⟨-, rfl⟩ | ⟨column, -, rfl⟩
      · refine .optimum rfl (congrArg (· + 1) hstop.1) ?_
        rw [← hstop.1, ← hstop.2]
        rfl
      · exact .nothing (.inr rfl) hstop.1 hstop.2
    · injection hok with _ ht'
      rw [← ht']
      exact .nothing (.inl rfl) hlast.1 hlast.2

/-- An optimum has been recorded, and the first one has a certain evaluation. -/
structure HasRecord (best : α) (t : Tableau α) : Prop where
  reached : t.optimaReached ≠ 0
  rootEvaluation_eq : t.rootEvaluation = best

namespace HasRecord

variable {best : α} {effort : Effort}

theorem simplex (h : HasRecord best t) :
    Ends (Tableau.simplex effort t) (fun _ => HasRecord best) fun _ _ => True := by
  cases hok : Tableau.simplex effort t with
  | error fault t' => trivial
  | ok result t' =>
    cases simplex_records hok with
    | nothing _ hoptima hroot =>
      exact ⟨by rw [hoptima]; exact h.reached, hroot.trans h.rootEvaluation_eq⟩
    | optimum _ hoptima hroot =>
      have hreached : ¬ (t.optimaReached == 0) = true := by simpa using h.reached
      rw [if_neg hreached] at hroot
      exact ⟨by rw [hoptima]; exact Nat.succ_ne_zero _, hroot.trans h.rootEvaluation_eq⟩

theorem addRoundingCuts (h : HasRecord best t) (integers : List Nat) :
    HasRecord best (t.addRoundingCuts integers).1 :=
  addRoundingCuts_pushed (HasRecord best) (fun _ _ ht => ⟨ht.reached, ht.rootEvaluation_eq⟩) h
    integers

theorem addCuts (h : HasRecord best t) (cuts : List (Cut α)) :
    Ends (Tableau.addCuts cuts t) (fun _ => HasRecord best) fun _ _ => True := by
  apply Ends.forM addCut (HasRecord best) _ cuts _ t h
  intro cut _ t' ht'
  rw [addCut_run]
  split
  · exact ⟨ht'.reached, ht'.rootEvaluation_eq⟩
  · trivial

/-- Later optima do not change what was recorded of the first one. -/
theorem solveBranch (h : HasRecord best t) {space : SearchSpace α} {cuts : List (Cut α)} :
    Ends (Tableau.solveBranch space effort cuts t) (fun _ => HasRecord best)
      fun _ _ => True := by
  have hrestore : HasRecord best t.restore := by
    unfold restore
    split
    · exact h
    · exact ⟨h.reached, h.rootEvaluation_eq⟩
  have hadd := hrestore.addCuts cuts
  cases hok : Tableau.addCuts cuts t.restore with
  | ok result t' =>
    rw [hok] at hadd
    apply solveBranch_ends (HasRecord best) _ effort hok (HasRecord.simplex hadd)
    intro _ t'' _ ht''
    apply roundingRounds_ends (HasRecord best) _ (fun _ _ => trivial) _ ht''
    intro source _ _ hsource
    exact (hsource.addRoundingCuts space.integers).simplex
  | error fault t' =>
    rw [solveBranch_of_error hok]
    trivial

end HasRecord

/-- A run that reaches an optimum evaluates it. -/
theorem simplex_evaluated (effort : Effort) (t : Tableau α) :
    Ends (simplex effort t) (fun _ t' => t'.isFeasible = true → t'.isBounded = true →
      t'.evaluation = .finite t'.objectiveValue) fun _ _ => True := by
  cases hok : simplex effort t with
  | error fault t' => trivial
  | ok result t' =>
    intro hfeasible hbounded
    cases simplex_records hok with
    | nothing verdict => simp [hfeasible, hbounded] at verdict
    | optimum evaluation => exact evaluation

theorem solveBranch_evaluated (space : SearchSpace α) (effort : Effort) (cuts : List (Cut α))
    (t : Tableau α) :
    Ends (solveBranch space effort cuts t) (fun _ t' => t'.isFeasible = true →
      t'.isBounded = true → t'.evaluation = .finite t'.objectiveValue) fun _ _ => True := by
  cases hok : addCuts cuts t.restore with
  | ok result t' =>
    apply solveBranch_ends _ _ effort hok (simplex_evaluated effort t')
    intro _ t'' _ ht''
    apply roundingRounds_ends _ _ (fun _ _ => trivial) _ ht''
    intro source _ _ _
    exact simplex_evaluated effort _
  | error fault t' =>
    rw [solveBranch_of_error hok]
    trivial

end Records

/-! ## The tableaus of a node -/

section Visited

variable {α : Type} [Scalar α]

/-- The tableaus on which a run of the simplex method pivots, and the one it ends with. -/
def simplexTableaus (effort : Effort) (t : Tableau α) : List (Tableau α) :=
  (simplexPivots effort t).map PivotEvent.before ++ [finalState (simplex effort t)]

def roundingTableaus (effort : Effort) (integers : List Nat) (rounds : Nat) (t : Tableau α) :
    List (Tableau α) :=
  (roundingSources effort integers rounds t).flatMap fun source =>
    if (source.addRoundingCuts integers).2 = 0 then []
    else simplexTableaus effort (source.addRoundingCuts integers).1

def branchTableaus (space : SearchSpace α) (effort : Effort) (cuts : List (Cut α))
    (t : Tableau α) : List (Tableau α) :=
  match addCuts cuts t.restore with
  | .error _ _ => []
  | .ok _ t' =>
    simplexTableaus effort t' ++
      match simplex effort t' with
      | .error _ _ => []
      | .ok _ t'' =>
        if space.options.usesRoundingCuts then
          roundingTableaus effort space.integers effort.rounds t''
        else []

end Visited

/-! ## Solved tableaus -/

variable {base t t' : Tableau Rat} {x : Nat → Rat} {holds : (Nat → Rat) → Prop}

/-- A relaxation of a branch in which a run of the simplex method has ended. -/
structure IsSolved (base : Tableau Rat) (holds : (Nat → Rat) → Prop) (t : Tableau Rat) :
    Prop where
  relaxes : Relaxes base t holds
  sound : t.IsSound
  separated : t.IsSeparated
  certified : t.IsCertified

namespace IsSolved

theorem stopsAt (h : IsSolved base holds t) : StopsAt t t :=
  ⟨SameFrame.refl t, ⟨fun _ => Iff.rfl, fun _ => Iff.rfl, fun _ _ => rfl⟩,
    h.sound.consistent.isNamed, h.certified⟩

theorem precision_pos (h : IsSolved base holds t) : 0 < base.precision := by
  rw [← h.relaxes.precision]
  exact h.separated.precision_pos

/-- The branch of an infeasible node has no integral point. -/
theorem not_holds (h : IsSolved base holds t) (hinfeasible : t.isFeasible = false)
    (hx : base.IsIntegralPoint x) : ¬ holds x := by
  intro hholds
  obtain ⟨y, -, hy⟩ := h.relaxes.complete x hx hholds
  exact h.stopsAt.not_isFeasiblePoint h.separated hinfeasible hy.feasible

/-- The basic solution of a node with an optimum, and what it costs. -/
theorem basicSolution (h : IsSolved base holds t) (hfeasible : t.isFeasible = true)
    (hbounded : t.isBounded = true) :
    base.IsFeasiblePoint t.dictionary.valueOf ∧
      t.objectiveValue = base.round (base.cost t.dictionary.valueOf) := by
  obtain ⟨hpoint, -⟩ := h.stopsAt.optimal h.separated hfeasible hbounded
  obtain ⟨hbase, hcost⟩ := h.relaxes.sound _ hpoint
  refine ⟨hbase, ?_⟩
  rw [objectiveValue, round_eq h.relaxes.precision, ← hcost,
    cost_valueOf h.sound.consistent.isNamed]

/-- The objective of a node bounds that of the integral points of its branch. -/
theorem objectiveValue_le (h : IsSolved base holds t) (hnamed : base.dictionary.IsNamed)
    (hfeasible : t.isFeasible = true) (hbounded : t.isBounded = true)
    (hx : base.IsIntegralPoint x) (hholds : holds x) :
    t.objectiveValue ≤ base.round (base.cost x) := by
  obtain ⟨y, hxy, hy⟩ := h.relaxes.complete x hx hholds
  obtain ⟨-, hoptimal⟩ := h.stopsAt.optimal h.separated hfeasible hbounded
  have hleast : t.cost t.dictionary.valueOf ≤ t.cost y := by
    by_contra hless
    exact hoptimal y hy.feasible (List.cons_lt_cons_iff.2 (.inl (not_le.1 hless)))
  have hcost : t.cost y = base.cost x := by
    rw [(h.relaxes.sound y hy.feasible).2]
    exact hnamed.rowValue_congr _ hxy
  rw [cost_valueOf h.sound.consistent.isNamed, hcost] at hleast
  rw [objectiveValue, round_eq h.relaxes.precision]
  exact round_le_round h.precision_pos hleast

end IsSolved

/-- A run of the simplex method on a relaxation solves it. -/
theorem Relaxes.simplex_solved (h : Relaxes base t holds) (hsound : t.IsSound) {effort : Effort}
    (hvisited : ∀ visited ∈ simplexTableaus effort t, visited.IsSeparated)
    (hok : simplex effort t = .ok () t') : IsSolved base holds t' := by
  obtain ⟨hbefore, hlast⟩ := List.forall_mem_append.1 hvisited
  have hpivots (event : PivotEvent Rat) (hevent : event ∈ simplexPivots effort t) :
      event.before.IsSeparated :=
    hbefore event.before (List.mem_map_of_mem hevent)
  have hseparated := hlast _ List.mem_cons_self
  have hrun := simplex_onlyPivots effort t
  rw [hok] at hseparated hrun
  have hstops := simplex_stopsAt hsound.consistent.hasBasis hok hpivots hseparated
  exact ⟨h.of_stopsAt hstops, hsound.of_sameFrame hrun.1 hrun.2, hseparated,
    hstops.certified⟩

/-- Rounds of rounding cuts on a solved relaxation keep it solved. -/
theorem IsSolved.roundingRounds (h : IsSolved base holds t) {effort : Effort}
    {integers : List Nat} {rounds : Nat}
    (hvisited : ∀ visited ∈ roundingTableaus effort integers rounds t, visited.IsSeparated) :
    Ends (Tableau.roundingRounds effort integers rounds t) (fun _ => IsSolved base holds)
      fun _ _ => True := by
  apply roundingRounds_ends (IsSolved base holds) _ (fun _ _ => trivial) _ h
  intro source hsource hadded hsolved
  cases hok : simplex effort (source.addRoundingCuts integers).1 with
  | error fault t' => trivial
  | ok result t' =>
    obtain ⟨hsound, hrelaxes⟩ :=
      hsolved.relaxes.addRoundingCuts hsolved.sound hsolved.separated integers
    apply hrelaxes.simplex_solved hsound _ hok
    intro visited hmem
    apply hvisited visited (List.mem_flatMap.2 ⟨source, hsource, ?_⟩)
    rw [if_neg hadded]
    exact hmem

def AllHold (cuts : List (Cut Rat)) (x : Nat → Rat) : Prop :=
  ∀ cut ∈ cuts, cut.Holds x

variable {space : SearchSpace Rat} {effort : Effort} {cuts : List (Cut Rat)}

/-- Solving a branch solves a relaxation of it. -/
theorem Relaxes.solveBranch_solved (h : Relaxes base t.restore fun _ => True)
    (hsound : t.restore.IsSound) (hcuts : ∀ cut ∈ cuts, base.dictionary.HasVariable cut.index)
    (hvisited : ∀ visited ∈ branchTableaus space effort cuts t, visited.IsSeparated) :
    Ends (solveBranch space effort cuts t) (fun _ => IsSolved base (AllHold cuts))
      fun _ _ => True := by
  obtain ⟨t', hadd, hsound', hrelaxes⟩ := h.addCuts hsound hcuts
  rw [branchTableaus, hadd] at hvisited
  obtain ⟨hfirst, hrounds⟩ := List.forall_mem_append.1 hvisited
  apply solveBranch_ends (IsSolved base (AllHold cuts)) _ effort hadd
  · cases hok : simplex effort t' with
    | error fault t'' => trivial
    | ok result t'' =>
      have hnarrowed : Relaxes base t' (AllHold cuts) := hrelaxes.mono fun x hx => ⟨trivial, hx⟩
      exact hnarrowed.simplex_solved hsound' hfirst hok
  · intro hrounding t'' hok hsolved
    rw [hok] at hrounds
    simp only [hrounding, if_true] at hrounds
    exact hsolved.roundingRounds hrounds

/-- The first optimum bounds all integral points. -/
theorem IsSound.rootEvaluation_le (hsound : base.IsSound) (hsnapshot : base.snapshot = none)
    (hoptima : base.optimaReached = 0)
    (hvisited : ∀ visited ∈ branchTableaus space effort [] base, visited.IsSeparated) :
    Ends (solveBranch space effort [] base)
      (fun _ t' => t'.isFeasible = true → t'.isBounded = true → t'.optimaReached ≠ 0 ∧
        ∀ x, base.IsIntegralPoint x → t'.rootEvaluation ≤ base.round (base.cost x))
      fun _ _ => True := by
  have hadd : Tableau.addCuts [] base.restore = .ok () base := addCuts_nil hsnapshot
  rw [branchTableaus, hadd] at hvisited
  obtain ⟨hfirst, -⟩ := List.forall_mem_append.1 hvisited
  apply solveBranch_ends _ _ effort hadd
  · cases hok : simplex effort base with
    | error fault t' => trivial
    | ok result t' =>
      intro hfeasible hbounded
      have hsolved := (Relaxes.refl base fun _ => True).simplex_solved hsound hfirst hok
      cases simplex_records hok with
      | nothing verdict => simp [hfeasible, hbounded] at verdict
      | optimum _ hreached hroot =>
        rw [hoptima] at hreached hroot
        refine ⟨by rw [hreached]; exact Nat.one_ne_zero, ?_⟩
        intro x hx
        rw [hroot]
        exact hsolved.objectiveValue_le hsound.consistent.isNamed hfeasible hbounded hx trivial
  -- Only the first optimum sets the record, so the rounds of cuts keep it.
  · intro _ t' _ ht'
    apply roundingRounds_ends _ _ (fun _ _ => trivial) _ ht'
    intro source hsource _ hbound
    obtain ⟨hfeasible, hbounded⟩ := verdict_of_mem_roundingSources hsource
    obtain ⟨hreached, hle⟩ := hbound hfeasible hbounded
    have hrecord : HasRecord source.rootEvaluation source := ⟨hreached, rfl⟩
    apply (hrecord.addRoundingCuts space.integers).simplex.success
    intro _ t'' ht'' _ _
    rw [ht''.rootEvaluation_eq]
    exact ⟨ht''.reached, hle⟩

end Tableau

end MixedInteger
