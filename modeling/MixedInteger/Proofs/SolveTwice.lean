import MixedInteger.Proofs.KeptSolutions
import MixedInteger.Proofs.ValueFree

/-!
# Solving twice

A second solve of a model that has not been edited starts from what the first one left
behind: the basis that the first relaxation ended with, the values that were written back,
and the flags, counters and evaluation of whatever node came last.  It stops at once at the
basis it finds, and from there on it retraces the first search, because what is left of the
first solve is either overwritten before it is read or never read at all.

The basis has to be one at which phase one stops.  Phase two passes over rows in which the
entering column has a coefficient that counts as zero, and may push one of them below its
bound by more than the precision; a second solve would begin by repairing it.
-/

namespace MixedInteger

namespace Tableau

variable {α : Type} [Scalar α] {space : SearchSpace α} {effort : Effort}

/-! ## Ends of the simplex method -/

/-- The tableau at which a run of the simplex method stops, before its verdict on the
objective. -/
def stopped (t : Tableau α) (d : Dictionary α) (feasible : Bool) : Tableau α :=
  { t.cleared with dictionary := d, isFeasible := feasible }

/-- The three ways in which a run of the simplex method ends. -/
inductive HaltsAt (t root : Tableau α) (d : Dictionary α) : Prop
  | infeasible (step : root.phaseOneStep = .infeasible) (root_eq : root = t.stopped d false)
  | optimal (step : root.phaseTwoStep = .optimal)
      (root_eq : root = (t.stopped d true).recordOptimum)
  | unbounded {column : Nat} (step : root.phaseTwoStep = .unbounded column)
      (root_eq : root = (t.stopped d true).recordUnbounded column)

theorem simplex_haltsAt {t root : Tableau α} (hok : simplex effort t = .ok () root) :
    effort.pivots ≠ 0 ∧ ∃ d, HaltsAt t root d := by
  rw [simplex_eq] at hok
  cases hphase : phaseOne effort t.cleared with
  | error fault start =>
    rw [hphase] at hok
    cases hok
  | ok result start =>
    have hpivots : effort.pivots ≠ 0 := by
      intro hzero
      rw [phaseOne, hzero] at hphase
      cases hphase
    rw [hphase] at hok
    obtain ⟨last, ⟨d, hlast⟩, hverdict⟩ := phaseOneLoop_eq_ok
      (fun last => ∃ d, last = { t.cleared with dictionary := d })
      (fun event _ ⟨_, hbefore⟩ => ⟨(event.before.pivot event.row event.column).dictionary, by
        rw [hbefore]
        rfl⟩) hphase ⟨t.dictionary, rfl⟩
    refine ⟨hpivots, ?_⟩
    rcases hverdict with ⟨-, hstart⟩ | ⟨hstep, hstart⟩
    · have hstopped : start = t.stopped d true := by rw [hstart, hlast, stopped]
      rw [hstopped] at hok
      obtain ⟨last, ⟨d, hlast⟩, hverdict⟩ := phaseTwoLoop_eq_ok
        (fun last => ∃ d, last = t.stopped d true)
        (fun event _ ⟨_, hbefore⟩ => ⟨(event.before.pivot event.row event.column).dictionary, by
          rw [hbefore]
          rfl⟩) hok ⟨d, rfl⟩
      rw [hlast] at hverdict
      rcases hverdict with ⟨hstep, hroot⟩ | ⟨column, hstep, hroot⟩
      · refine ⟨d, .optimal ?_ hroot⟩
        rw [hroot, ← hstep]
        exact ChoosesAlike.phaseTwoStep ⟨rfl, rfl, fun _ => rfl⟩
      · refine ⟨d, .unbounded ?_ hroot⟩
        rw [hroot, ← hstep]
        exact ChoosesAlike.phaseTwoStep ⟨rfl, rfl, fun _ => rfl⟩
    · have hstopped : start = t.stopped d false := by rw [hstart, hlast, stopped]
      rw [hstopped] at hok
      injection hok with _ hroot
      refine ⟨d, .infeasible ?_ hroot.symm⟩
      rw [← hroot, ← hstep, hlast]
      exact ChoosesAlike.phaseOneStep ⟨rfl, rfl, fun _ => rfl⟩

theorem HaltsAt.kept {t root : Tableau α} {d : Dictionary α} (h : HaltsAt t root d) :
    SameFrame t root ∧ root.isIntegral = t.isIntegral ∧
      root.nodesExplored = t.nodesExplored := by
  cases h with
  | infeasible _ root_eq => exact root_eq ▸ ⟨⟨rfl, rfl, rfl, rfl, rfl⟩, rfl, rfl⟩
  | optimal _ root_eq => exact root_eq ▸ ⟨⟨rfl, rfl, rfl, rfl, rfl⟩, rfl, rfl⟩
  | unbounded _ root_eq => exact root_eq ▸ ⟨⟨rfl, rfl, rfl, rfl, rfl⟩, rfl, rfl⟩

/-- No restricted basic variable is further below zero than the precision, or the tableau
was found infeasible. -/
def NeedsNoRepair (root : Tableau α) : Prop :=
  root.isFeasible = false ∨
    ∀ r ∈ root.dictionary.rows, root.isFree (root.dictionary.basicAt r) = false →
      ¬ root.dictionary.entry r 0 < -root.precision

instance (root : Tableau α) : Decidable root.NeedsNoRepair := by
  unfold NeedsNoRepair
  infer_instance

theorem NeedsNoRepair.phaseOneStep {root : Tableau α} (h : root.NeedsNoRepair)
    (hfeasible : root.isFeasible = true) : root.phaseOneStep = .feasible := by
  rw [phaseOneStep_eq_feasible_iff, violatedRow?, select_eq_none_iff, List.forall_mem_map]
  intro r hr
  obtain ⟨hrow, hrestricted⟩ := List.mem_filter.1 hr
  have hrows := h.resolve_left (by simp [hfeasible])
  simpa using hrows r hrow (by simpa using hrestricted)

/-- A tableau as the next solve finds it, with the verdict and the record of whatever was
solved last. -/
def restarted (root last : Tableau α) : Tableau α :=
  { root with
    isFeasible := last.isFeasible
    isBounded := last.isBounded
    unboundedIndex := last.unboundedIndex
    evaluation := last.evaluation
    rootEvaluation := last.rootEvaluation
    optimaReached := 0 }

/-- The simplex method stops at once where it stopped before, with the same verdict.  Only
an optimum overwrites the evaluations. -/
theorem simplex_restarted {t root last : Tableau α} (hok : simplex effort t = .ok () root)
    (hfresh : t.optimaReached = 0) (hsettled : root.NeedsNoRepair)
    (hlast : root.isFeasible = true ∧ root.isBounded = true ∨
      last.evaluation = root.evaluation ∧ last.rootEvaluation = root.rootEvaluation) :
    simplex effort (root.restarted last) = .ok () root := by
  obtain ⟨hpivots, d, hhalts⟩ := simplex_haltsAt hok
  obtain ⟨budget, hbudget⟩ := Nat.exists_eq_succ_of_ne_zero hpivots
  have hsame : ChoosesAlike root (root.restarted last).cleared := ⟨rfl, rfl, fun _ => rfl⟩
  have hsame' : ChoosesAlike root { (root.restarted last).cleared with isFeasible := true } :=
    ⟨rfl, rfl, fun _ => rfl⟩
  rw [simplex_eq, phaseOne, phaseTwo, hbudget]
  cases hhalts with
  | infeasible hstep hroot =>
    rw [phaseOneLoop_of_infeasible (hsame.phaseOneStep.trans hstep)]
    subst hroot
    have hlast := hlast.resolve_left fun hfeasible => absurd hfeasible.1 Bool.false_ne_true
    simp only [restarted, cleared, hlast]
    exact congrArg (EStateM.Result.ok ()) (by rw [stopped, cleared, hfresh])
  | optimal hstep hroot =>
    have hfeasible := hsettled.phaseOneStep (by rw [hroot]; rfl)
    rw [phaseOneLoop_of_feasible (hsame.phaseOneStep.trans hfeasible)]
    dsimp only
    rw [if_pos rfl, phaseTwoLoop_of_optimal (hsame'.phaseTwoStep.trans hstep)]
    subst hroot
    simp only [restarted, cleared, recordOptimum, stopped, hfresh]
    rfl
  | unbounded hstep hroot =>
    have hfeasible := hsettled.phaseOneStep (by rw [hroot]; rfl)
    rw [phaseOneLoop_of_feasible (hsame.phaseOneStep.trans hfeasible)]
    dsimp only
    rw [if_pos rfl, phaseTwoLoop_of_unbounded (hsame'.phaseTwoStep.trans hstep)]
    subst hroot
    have hlast := hlast.resolve_left fun hbounded => absurd hbounded.2 Bool.false_ne_true
    simp only [restarted, cleared, recordUnbounded, stopped, hlast, hfresh]

/-! ## What follows the first relaxation -/

def searchFromRoot (space : SearchSpace α) (effort : Effort) : Action α (NodeOutcome α) := do
  match ← visitNode space atRoot rootBranch with
  | .continue search => explore space effort (effort.branches - 1) search
  | .final search => pure (.final search)

/-- What follows the first relaxation of a solve: nothing, or a search. -/
def conclude (space : SearchSpace α) (effort : Effort) : Action α (List (KeptSolution α)) :=
  if space.integers.isEmpty then pure []
  else do
    match ← searchFromRoot space effort with
    | .final search => pure search.kept
    | .continue search =>
      finishSearch space effort search
      pure search.kept

/-- A solve apart from what it does before and after: the first relaxation, the search and
the solution. -/
def answer (space : SearchSpace α) (effort : Effort) : Action α (Solution α) := do
  simplex effort
  let kept ← conclude space effort
  pure ((← get).solution space kept)

theorem searchFromRoot_ignoresValues (hrounding : space.options.usesRoundingCuts = false)
    (effort : Effort) : IgnoresValues (searchFromRoot space effort) := by
  apply IgnoresValues.bind (visitNode_ignoresValues atRoot rootBranch)
  intro outcome
  cases outcome with
  | «continue» search => exact explore_ignoresValues hrounding effort _ search
  | final search => exact .pure _

theorem conclude_ignoresValues (hrounding : space.options.usesRoundingCuts = false)
    (effort : Effort) : IgnoresValues (conclude space effort) := by
  unfold conclude
  split
  · exact .pure _
  · apply IgnoresValues.bind (searchFromRoot_ignoresValues hrounding effort)
    intro outcome
    cases outcome with
    | final search => exact .pure _
    | «continue» search =>
      exact IgnoresValues.bind (finishSearch_ignoresValues hrounding effort search)
        fun _ => .pure _

theorem answer_ignoresValues (hrounding : space.options.usesRoundingCuts = false)
    (effort : Effort) : IgnoresValues (answer space effort) := by
  apply IgnoresValues.bind (simplex_ignoresValues effort)
  intro _
  apply IgnoresValues.bind (conclude_ignoresValues hrounding effort)
  intro kept t
  exact congrArg (EStateM.Result.ok · t.unvalued) (solution_unvalued t space kept)

/-- A search without rounding cuts begins with a run of the simplex method. -/
theorem branchAndCut_eq (hrounding : space.options.usesRoundingCuts = false)
    (hbranches : effort.branches ≠ 0) (hempty : space.integers.isEmpty = false) {t : Tableau α}
    (hsnapshot : t.snapshot = none) :
    branchAndCut space effort t = (simplex effort >>= fun _ => conclude space effort) t := by
  obtain ⟨budget, hbudget⟩ := Nat.exists_eq_succ_of_ne_zero hbranches
  have hroot : solveBranch space effort [] t = simplex effort t := by
    rw [solveBranch_of_addCuts effort (addCuts_nil hsnapshot), hrounding]
    cases simplex effort t <;> rfl
  have hsearch : searchFromRoot space effort = (do
      match ← visitNode space atRoot rootBranch with
      | .continue search => explore space effort budget search
      | .final search => pure (.final search) : Action α (NodeOutcome α)) := by
    rw [searchFromRoot, hbudget]
    rfl
  have hexplore : explore space effort effort.branches Search.start t =
      (simplex effort >>= fun _ => searchFromRoot space effort) t := by
    rw [hbudget, explore_start, hsearch]
    cases houtcome : simplex effort t with
    | ok result root =>
      refine (bind_of_ok (hroot.trans houtcome)).trans (Eq.trans ?_ (bind_of_ok houtcome).symm)
      rfl
    | error fault root => rw [bind_of_error (hroot.trans houtcome), bind_of_error houtcome]
  rw [branchAndCut, conclude, if_neg (by simp [hempty])]
  cases houtcome : simplex effort t with
  | error fault root =>
    rw [bind_of_error houtcome] at hexplore
    rw [bind_of_error houtcome, bind_of_error hexplore]
  | ok result root =>
    rw [bind_of_ok houtcome] at hexplore
    rw [bind_of_ok houtcome]
    cases hfound : searchFromRoot space effort root with
    | error fault t' =>
      rw [hfound] at hexplore
      rw [bind_of_error hexplore, bind_of_error hfound]
    | ok outcome t' =>
      rw [hfound] at hexplore
      refine (bind_of_ok hexplore).trans (Eq.trans ?_ (bind_of_ok hfound).symm)
      cases outcome <;> rfl

/-- A solve is its answer, after which the values are written back. -/
theorem solve_eq_answer (hrounding : space.options.usesRoundingCuts = false)
    (hbranches : space.integers.isEmpty = true ∨ effort.branches ≠ 0) (t : Tableau α) :
    solve space effort t =
      match answer space effort (t.readied space) with
      | .ok solution t' => .ok solution (t'.updateValues space.indices)
      | .error fault t' => .error fault t' := by
  have hwritten (t' : Tableau α) (kept : List (KeptSolution α)) :
      (t'.updateValues space.indices).solution space kept = t'.solution space kept := by
    rw [← solution_unvalued, unvalued_updateValues, solution_unvalued]
  cases hempty : space.integers.isEmpty with
  | true =>
    have hconclude : conclude space effort = pure [] := if_pos hempty
    rw [solve_of_no_integers (List.isEmpty_iff.1 hempty), answer, hconclude]
    cases hroot : simplex effort (t.readied space) with
    | error fault root => rw [bind_of_error hroot]
    | ok result root =>
      rw [bind_of_ok hroot]
      exact congrArg (EStateM.Result.ok · _) (hwritten root [])
  | false =>
    have hsearch : branchAndCut space effort (t.readied space) = _ :=
      branchAndCut_eq hrounding (hbranches.resolve_left (by simp [hempty])) hempty rfl
    rw [solve_of_integers hempty, answer]
    cases hroot : simplex effort (t.readied space) with
    | error fault root =>
      rw [bind_of_error hroot] at hsearch
      rw [bind_of_error hroot, bind_of_error hsearch]
    | ok result root =>
      rw [bind_of_ok hroot] at hsearch
      rw [bind_of_ok hroot]
      cases hkept : conclude space effort root with
      | error fault t' => rw [bind_of_error hkept, bind_of_error (hsearch.trans hkept)]
      | ok kept t' =>
        rw [bind_of_ok hkept, bind_of_ok (hsearch.trans hkept)]
        exact congrArg (EStateM.Result.ok · _) (hwritten t' kept)

/-! ## What a solve leaves behind -/

/-- Where the search from a root ends: at the root, with another verdict, or on top of a
snapshot of a root that was split. -/
inductive Departs (root t : Tableau α) : Prop
  | staying (feasible integral : Bool) (nodes : Nat)
      (t_eq : t = { root with
        isFeasible := feasible, isIntegral := integral, nodesExplored := nodes })
  | searching (feasible : root.isFeasible = true) (bounded : root.isBounded = true)
      (returns : ReturnsTo root t)

/-- What is known when the loop over branches has ended: a root that was not split has
nothing to return to. -/
def DepartsWith (root : Tableau α) : NodeOutcome α → Tableau α → Prop
  | .final _, t => Departs root t
  | .continue search, t =>
    t = root ∧ search.incumbent = none ∨
      root.isFeasible = true ∧ root.isBounded = true ∧ ReturnsTo root t

section Root

variable {root : Tableau α}

/-- A root that is infeasible is the only node. -/
theorem explore_atRoot_departs (budget : Nat) :
    Ends (explore space effort budget atRoot root) (DepartsWith root) fun _ _ => True := by
  rcases explore_nil effort budget (rfl : (atRoot : Search α).branches = []) root with hnil | hnil
  · rw [hnil]
    trivial
  · rw [hnil]
    exact .inl ⟨rfl, rfl⟩

theorem searchFromRoot_departs (hroot : root.HasClearPool) :
    Ends (searchFromRoot space effort root) (DepartsWith root) fun _ _ => True := by
  have hfirst : ((atRoot : Search α).nodes == 1) = true := rfl
  have hvisit := (visitNode_eq atRoot rootBranch root : visitNode space atRoot rootBranch root = _)
  unfold searchFromRoot
  split at hvisit
  · rw [bind_of_ok hvisit]
    exact explore_atRoot_departs _
  next hfeasible =>
  split at hvisit
  · rw [bind_of_ok hvisit]
    exact .staying root.isFeasible root.isIntegral _ rfl
  next hbounded =>
  split at hvisit
  · rw [bind_of_ok hvisit]
    exact explore_atRoot_departs _
  split at hvisit
  · simp only [acceptNode_eq, hfirst, if_true] at hvisit
    rw [bind_of_ok hvisit]
    exact .staying root.isFeasible true _ rfl
  -- Only a split takes the snapshot, so everything after it returns to the root.
  simp only [splitNode_eq, hfirst, if_true] at hvisit
  have hsolved : root.isFeasible = true ∧ root.isBounded = true :=
    ⟨by simpa using hfeasible, by simpa using hbounded⟩
  cases hfound : root.save.branchingVariable? space.options.branching space.integers with
  | none =>
    rw [hfound] at hvisit
    rw [bind_of_error hvisit]
    trivial
  | some found =>
    rw [hfound] at hvisit
    rw [bind_of_ok hvisit]
    apply (explore_chronicle hroot _ Nat.one_pos (chronicle_nil rfl rfl)
      (ReturnsTo.save root)).success
    rintro outcome t ⟨hreturns, -⟩
    cases outcome with
    | final search => exact .searching hsolved.1 hsolved.2 hreturns
    | «continue» search => exact .inr ⟨hsolved.1, hsolved.2, hreturns⟩

theorem ReturnsTo.finishSearch {t : Tableau α} (h : ReturnsTo root t) (hroot : root.HasClearPool)
    (search : Search α) :
    Ends (Tableau.finishSearch space effort search t) (fun _ => ReturnsTo root)
      fun _ => ReturnsTo root := by
  unfold Tableau.finishSearch
  cases search.incumbent with
  | none => exact (h.restore hroot).of_same rfl rfl rfl rfl rfl
  | some incumbent =>
    apply Ends.bind (Ends.of_finalState (h.solveBranch hroot space effort incumbent.branch.cuts))
    intro _ t' ht'
    exact ht'.of_same rfl rfl rfl rfl rfl

theorem conclude_departs (hroot : root.HasClearPool) (hsnapshot : root.snapshot = none) :
    Ends (conclude space effort root) (fun _ => Departs root) fun _ _ => True := by
  unfold conclude
  split
  · exact .staying root.isFeasible root.isIntegral root.nodesExplored rfl
  apply Ends.bind (searchFromRoot_departs hroot)
  intro outcome t houtcome
  cases outcome with
  | final search => exact houtcome
  | «continue» search =>
    rcases houtcome with ⟨rfl, hincumbent⟩ | ⟨hfeasible, hbounded, hreturns⟩
    · have hfinish : finishSearch space effort search t = _ :=
        finishSearch_of_none effort hincumbent t
      change Ends ((finishSearch space effort search >>= fun _ => pure search.kept) t) _ _
      rw [bind_of_ok hfinish, restore_eq_self hsnapshot]
      exact .staying false false search.nodes rfl
    · apply Ends.bind ((hreturns.finishSearch hroot search).success fun _ _ => id)
      intro _ t' ht'
      exact .searching hfeasible hbounded ht'

omit [Scalar α] in
/-- The next solve finds the root as it was, with the verdict and the record of the last
node. -/
theorem Departs.readied_eq {t : Tableau α} (h : Departs root t) (hroot : root.HasClearPool)
    (hsnapshot : root.snapshot = none) (hchecks : root.checksCycles = space.options.stopsOnCycles)
    (hintegral : root.isIntegral = false) (hnodes : root.nodesExplored = 0) :
    t.readied space = root.restarted t := by
  cases h with
  | staying feasible integral nodes t_eq =>
    have hsame : t.discardSearch = t :=
      discardSearch_eq_self (by rw [t_eq]; exact hsnapshot)
    rw [readied, hsame, t_eq, restarted, hchecks, hintegral, hnodes]
  | searching _ _ returns =>
    have hback : t.discardSearch = { t with
        dictionary := root.dictionary, pool := root.pool, arena := root.arena,
        snapshot := none } := by
      have hrestore : t.restore = { t with
          dictionary := t.restore.dictionary, pool := t.restore.pool,
          arena := t.restore.arena } := by
        rw [restore, returns.snapshot]
      rw [discardSearch, hrestore, returns.dictionary_restore, returns.pool_restore,
        returns.arena_restore hroot]
    rw [readied, hback, restarted, hchecks, hintegral, hnodes, hsnapshot, returns.precision]

omit [Scalar α] in
/-- Only a root with an optimum is left for other nodes, so the evaluations of any other root
are still there. -/
theorem Departs.evaluation {t : Tableau α} (h : Departs root t) :
    root.isFeasible = true ∧ root.isBounded = true ∨
      t.evaluation = root.evaluation ∧ t.rootEvaluation = root.rootEvaluation := by
  cases h with
  | staying _ _ _ t_eq => exact .inr (by rw [t_eq]; exact ⟨rfl, rfl⟩)
  | searching feasible bounded _ => exact .inl ⟨feasible, bounded⟩

end Root

/-! ## The second solve -/

section Clock

variable (effort) (elapsed : Nat → Nat)

theorem solveBranch_clock (hrounding : space.options.usesRoundingCuts = false)
    (cuts : List (Cut α)) :
    solveBranch space { effort with elapsed := elapsed } cuts = solveBranch space effort cuts := by
  unfold solveBranch
  rw [hrounding]
  rfl

/-- Without a timeout the clock plays no part. -/
theorem explore_clock (hrounding : space.options.usesRoundingCuts = false)
    (htimeout : space.options.timeout = none) (budget : Nat) (search : Search α) :
    explore space { effort with elapsed := elapsed } budget search =
      explore space effort budget search := by
  induction budget generalizing search with
  | zero => rfl
  | succ budget ih =>
    funext t
    rw [explore_succ, explore_succ]
    cases search.branches with
    | nil => rfl
    | cons branch branches =>
      simp only [Search.isTimedOut, htimeout, Option.any_none, Bool.and_false, ih,
        solveBranch_clock effort elapsed hrounding]

theorem solve_clock (hrounding : space.options.usesRoundingCuts = false)
    (htimeout : space.options.timeout = none) :
    solve space { effort with elapsed := elapsed } = solve space effort := by
  have hsimplex : simplex { effort with elapsed := elapsed } = (simplex effort : Action α Unit) :=
    rfl
  unfold solve branchAndCut finishSearch
  simp only [explore_clock effort elapsed hrounding htimeout, hsimplex,
    solveBranch_clock effort elapsed hrounding]

end Clock

theorem answer_eq_ok {t t' : Tableau α} {solution : Solution α}
    (hok : answer space effort t = .ok solution t') :
    ∃ root kept, simplex effort t = .ok () root ∧ conclude space effort root = .ok kept t' ∧
      solution = t'.solution space kept := by
  cases hroot : simplex effort t with
  | error fault root =>
    rw [answer, bind_of_error hroot] at hok
    cases hok
  | ok result root =>
    rw [answer, bind_of_ok hroot] at hok
    cases hkept : conclude space effort root with
    | error fault last =>
      rw [bind_of_error hkept] at hok
      cases hok
    | ok kept last =>
      rw [bind_of_ok hkept] at hok
      injection hok with hsolution hlast
      exact ⟨root, kept, rfl, by rw [← hlast]; exact hkept, by rw [← hsolution, ← hlast]⟩

/-- The tableau with which a second solve begins, before the values of the first one are
written back, gives the same answer. -/
theorem answer_readied {t t' : Tableau α} {solution : Solution α}
    (hpool : t.discardSearch.HasSoundPool)
    (hsettled : ∀ root, simplex effort (t.readied space) = .ok () root → root.NeedsNoRepair)
    (hok : answer space effort (t.readied space) = .ok solution t') :
    answer space effort (t'.readied space) = .ok solution t' := by
  obtain ⟨root, kept, hroot, hkept, rfl⟩ := answer_eq_ok hok
  obtain ⟨-, d, hhalts⟩ := simplex_haltsAt hroot
  obtain ⟨hframe, hintegral, hnodes⟩ := hhalts.kept
  have hclear : root.HasClearPool := (hpool.of_eq hframe.pool hframe.arena).hasClearPool
  have hdeparts : Departs root t' := (conclude_departs hclear hframe.snapshot).of_ok hkept
  have hagain := simplex_restarted hroot rfl (hsettled root hroot) hdeparts.evaluation
  rw [hdeparts.readied_eq hclear hframe.snapshot hframe.checksCycles hintegral hnodes, answer,
    bind_of_ok hagain, bind_of_ok hkept]
  rfl

/-- A second solve gives the same solution, whatever time it takes. -/
theorem solve_again {t t' : Tableau α} {solution : Solution α}
    (hpool : t.discardSearch.HasSoundPool) (hrounding : space.options.usesRoundingCuts = false)
    (htimeout : space.options.timeout = none)
    (hsettled : ∀ root, simplex effort (t.readied space) = .ok () root → root.NeedsNoRepair)
    (hok : solve space effort t = .ok solution t') (elapsed : Nat → Nat) :
    ∃ t'', solve space { effort with elapsed := elapsed } t' = .ok solution t'' := by
  have hbranches : space.integers.isEmpty = true ∨ effort.branches ≠ 0 := by
    by_contra hnone
    obtain ⟨hempty, hzero⟩ := not_or.1 hnone
    have hsearch : branchAndCut space effort (t.readied space) =
        .error (Cause.outOfSteps : Fault) (t.readied space) := by
      rw [branchAndCut, not_not.1 hzero]
      rfl
    rw [solve_of_integers (by simpa using hempty), bind_of_error hsearch] at hok
    cases hok
  rw [solve_clock effort elapsed hrounding htimeout]
  rw [solve_eq_answer hrounding hbranches] at hok ⊢
  cases hanswer : answer space effort (t.readied space) with
  | error fault last =>
    rw [hanswer] at hok
    cases hok
  | ok solution' last =>
    rw [hanswer] at hok
    injection hok with hsolution hlast
    subst hsolution hlast
    have hvalues : ((last.updateValues space.indices).readied space).unvalued =
        (last.readied space).unvalued := by
      rw [← readied_unvalued, ← readied_unvalued, unvalued_updateValues]
    obtain ⟨last', hagain, -⟩ := (answer_ignoresValues hrounding effort).exists_ok hvalues
      (answer_readied hpool hsettled hanswer)
    rw [hagain]
    exact ⟨_, rfl⟩

end Tableau

namespace Model

variable {α : Type} [Scalar α]

def firstRelaxation (model : Model α) (effort : Effort) :
    EStateM.Result Fault (Tableau α) Unit :=
  Tableau.simplex effort (model.ready.tableau.readied model.ready.searchSpace)

/-- A solved model is loaded, and only its tableau has changed since it was ready. -/
theorem IsOrderly.solve_eq_ok {model model' : Model α} (h : model.IsOrderly) {effort : Effort}
    {solution : Solution α} (hok : solve effort model = .ok solution model') :
    Tableau.solve model.ready.searchSpace effort model.ready.tableau =
        .ok solution model'.tableau ∧
      model'.searchSpace = model.ready.searchSpace ∧ model'.isLoaded = true := by
  obtain ⟨hsolve, (_ : Carries (fun _ => True) model model.ready), hready⟩ := h.ready_eq effort
  rw [hsolve, onTableau] at hok
  cases houtcome : Tableau.solve model.ready.searchSpace effort model.ready.tableau with
  | error fault t' =>
    rw [houtcome] at hok
    cases hok
  | ok solution' t' =>
    rw [houtcome] at hok
    injection hok with hsolution hmodel
    subst hsolution hmodel
    exact ⟨rfl, rfl, by rw [hready]⟩

end Model

namespace Operation

variable {α : Type} [Scalar α]

/-- After every run: once a model has been solved, without rounding cuts and without a
timeout, a second solve with nothing edited in between gives the same solution, provided
that the first relaxation was infeasible or ended with no restricted basic variable below
zero by more than the precision.  The second solve may take another time. -/
theorem solve_repeats (precision : α) (options : Options α) (operations : List (Operation α))
    (model model' : Model α) (hmodel : model = after (Model.empty precision options) operations)
    (hrounding : model.options.usesRoundingCuts = false) (htimeout : model.options.timeout = none)
    (effort : Effort) (solution : Solution α)
    (hsolve : Model.solve effort model = .ok solution model')
    (hsettled : Ends (model.firstRelaxation effort) (fun _ root => root.NeedsNoRepair)
      fun _ _ => True)
    (elapsed : Nat → Nat) :
    ∃ model'', Model.solve { effort with elapsed := elapsed } model' = .ok solution model'' := by
  have horderly : model.IsOrderly := by
    rw [hmodel]
    exact isOrderly_after precision options operations
  obtain ⟨-, (hready : Model.Carries (fun _ => True) model model.ready), hsame⟩ :=
    horderly.ready_eq effort
  obtain ⟨htableau, hspace, hloaded⟩ := horderly.solve_eq_ok hsolve
  have hoptions : model.ready.searchSpace.options = model.options := by
    rw [hsame]
    rfl
  obtain ⟨t'', hagain⟩ := Tableau.solve_again hready.orderly.pool
    (by rw [hoptions]; exact hrounding) (by rw [hoptions]; exact htimeout)
    (fun root hroot => hsettled.of_ok hroot) htableau elapsed
  rw [Model.solve_of_loaded hloaded, Model.onTableau, hspace, hagain]
  exact ⟨_, rfl⟩

/-- A search that splits its root and improves its solution on the way. -/
theorem solve_repeats_improvingModel :
    improvingModel.options.usesRoundingCuts = false ∧ improvingModel.options.timeout = none ∧
      Ends (improvingModel.firstRelaxation ⟨8, 0, 8, fun _ => 0⟩)
        (fun _ root => root.isFeasible = true ∧ root.NeedsNoRepair) (fun _ _ => False) ∧
      ∃ solution model',
        Model.solve ⟨8, 0, 8, fun _ => 0⟩ improvingModel = .ok solution model' ∧
          solution.kept.map KeptSolution.result = [12, 13] ∧ solution.iterations = some 3 ∧
          ∃ model'', Model.solve ⟨8, 0, 8, fun nodes => nodes⟩ model' = .ok solution model'' := by
  have hends : Ends (Model.solve ⟨8, 0, 8, fun _ => 0⟩ improvingModel)
      (fun solution _ => solution.kept.map KeptSolution.result = [12, 13] ∧
        solution.iterations = some 3) fun _ _ => False := by
    decide +kernel
  obtain ⟨solution, model', hsolve, hresults, hnodes⟩ := hends.exists_ok
  have hrelaxation : Ends (improvingModel.firstRelaxation ⟨8, 0, 8, fun _ => 0⟩)
      (fun _ root => root.isFeasible = true ∧ root.NeedsNoRepair) (fun _ _ => False) := by
    decide +kernel
  have hrounding : improvingModel.options.usesRoundingCuts = false := by decide +kernel
  have htimeout : improvingModel.options.timeout = none := by decide +kernel
  have hsettled := hrelaxation.success fun _ _ hroot => hroot.2
  exact ⟨hrounding, htimeout, hrelaxation, solution, model', hsolve, hresults, hnodes,
    solve_repeats _ _ _ improvingModel model' rfl hrounding htimeout _ solution hsolve hsettled
      fun nodes => nodes⟩

end Operation

end MixedInteger
