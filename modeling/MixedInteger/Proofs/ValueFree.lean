import MixedInteger.Proofs.Incumbents

/-!
# Solving does not read values

The value that the last solve gave to a variable is the one thing about it that no step of
a solve reads.  `unvalued` forgets all values, and every step of a search without rounding
cuts commutes with it.  So two tableaus that differ in values only go through the same
steps and end alike.
-/

namespace MixedInteger

def mapState {ε σ β : Type} (change : σ → σ) : EStateM.Result ε σ β → EStateM.Result ε σ β
  | .ok result state => .ok result (change state)
  | .error fault state => .error fault (change state)

namespace Tableau

variable {α : Type} [Scalar α] {t : Tableau α}

def unvalued (t : Tableau α) : Tableau α :=
  { t with arena := t.arena.map (Option.map Variable.traits) }

theorem lookup?_unvalued (t : Tableau α) (index : Nat) :
    t.unvalued.lookup? index = (t.lookup? index).map Variable.traits := by
  rw [lookup?, lookup?, unvalued, Array.getElem?_map]
  cases t.arena[index]? <;> rfl

theorem sameView_unvalued (t : Tableau α) : SameView Variable.traits t t.unvalued := by
  refine ⟨rfl, rfl, rfl, rfl, Array.size_map, ?_⟩
  intro index
  rw [lookup?_unvalued, Option.map_map]
  rfl

theorem SameView.arena_unvalued {t' : Tableau α} (h : SameView Variable.traits t t') :
    t'.unvalued.arena = t.unvalued.arena := by
  apply arena_eq_of_lookup?
  · rw [unvalued, unvalued, Array.size_map, Array.size_map, h.arena_size]
  · intro index
    rw [lookup?_unvalued, lookup?_unvalued, h.view_eq]

/-! ## What is read off a tableau -/

theorem choosesAlike_unvalued (t : Tableau α) : ChoosesAlike t t.unvalued := by
  refine ⟨rfl, rfl, ?_⟩
  intro index
  cases index with
  | none => rfl
  | some index =>
    rw [isFree, isFree, Option.bind_some, Option.bind_some, lookup?_unvalued, Option.any_map]
    rfl

theorem branchingVariable?_unvalued (t : Tableau α) (rule : Branching) (indices : List Nat) :
    t.unvalued.branchingVariable? rule indices = t.branchingVariable? rule indices := by
  have hcost (index : Nat) :
      (t.unvalued.lookup? index).map Variable.cost = (t.lookup? index).map Variable.cost := by
    rw [lookup?_unvalued, Option.map_map]
    rfl
  cases rule with
  | mostFractional => rfl
  | lowestCostFractional =>
    simp only [branchingVariable?, lowestCostFractional?, hcost]
    rfl

theorem basicSolution_unvalued (t : Tableau α) : t.unvalued.basicSolution = t.basicSolution :=
  (sameView_unvalued t).basicSolution

theorem solution_unvalued (t : Tableau α) (space : SearchSpace α)
    (kept : List (KeptSolution α)) :
    t.unvalued.solution space kept = t.solution space kept := by
  have hname : (t.unvalued.unboundedIndex.bind t.unvalued.lookup?).map Variable.name =
      (t.unboundedIndex.bind t.lookup?).map Variable.name := by
    change (t.unboundedIndex.bind t.unvalued.lookup?).map Variable.name = _
    cases t.unboundedIndex with
    | none => rfl
    | some index =>
      rw [Option.bind_some, Option.bind_some, lookup?_unvalued, Option.map_map]
      rfl
  rw [solution, solution, hname, basicSolution_unvalued]
  rfl

theorem unvalued_updateValues (t : Tableau α) (indices : List Nat) :
    (t.updateValues indices).unvalued = t.unvalued := by
  have harena := (sameView_updateValues t indices).arena_unvalued
  rw [updateValues_eq] at harena ⊢
  exact congrArg (fun arena => { t with arena := arena }) harena

/-! ## Changes that commute -/

theorem restore_unvalued (t : Tableau α) : t.unvalued.restore = t.restore.unvalued := by
  cases hsnapshot : t.snapshot with
  | none =>
    rw [restore_eq_self hsnapshot]
    exact restore_eq_self hsnapshot
  | some snapshot =>
    have hsnapshot' : t.unvalued.snapshot = some snapshot := hsnapshot
    have harena : t.unvalued.restore.arena = t.restore.unvalued.arena := by
      apply arena_eq_of_lookup?
      · rw [restore, hsnapshot', restore, hsnapshot, unvalued, unvalued]
        simp [size_foldl_clear]
      · intro index
        rw [lookup?_unvalued, lookup?_restore hsnapshot', lookup?_restore hsnapshot,
          lookup?_unvalued]
        split <;> rfl
    have hrest : t.unvalued.restore = { t.restore with arena := t.unvalued.restore.arena } := by
      rw [restore, hsnapshot', restore, hsnapshot]
      rfl
    rw [hrest, harena]
    rfl

theorem readied_unvalued (t : Tableau α) (space : SearchSpace α) :
    t.unvalued.readied space = (t.readied space).unvalued := by
  rw [readied, discardSearch, restore_unvalued]
  rfl

theorem registerSlack_unvalued (t : Tableau α) :
    t.unvalued.registerSlack.2 = t.registerSlack.2.unvalued := by
  have hrecord : record t.unvalued.arena (Variable.slack t.pool.allocate.1) =
      (record t.arena (Variable.slack t.pool.allocate.1)).map (Option.map Variable.traits) := by
    simp only [record, unvalued, Array.map_setIfInBounds, Array.map_append, Array.map_replicate,
      Array.size_map]
    rfl
  exact congrArg (fun arena => { t with pool := t.pool.allocate.2, arena := arena }) hrecord

theorem pushCutRow_unvalued (t : Tableau α) (row : Array α) :
    t.unvalued.pushCutRow row = (t.pushCutRow row).unvalued :=
  congrArg (fun t' => t'.modifyDictionary fun d => d.pushRow t.pool.allocate.1 row)
    (registerSlack_unvalued t)

/-! ## Actions that ignore values -/

/-- An action whose course and result do not depend on the values of variables. -/
def IgnoresValues {β : Type} (action : Action α β) : Prop :=
  ∀ t, action t.unvalued = mapState unvalued (action t)

namespace IgnoresValues

variable {β γ : Type}

theorem pure (result : β) : IgnoresValues (Pure.pure result : Action α β) :=
  fun _ => rfl

theorem modify {change : Tableau α → Tableau α}
    (hchange : ∀ t, change t.unvalued = (change t).unvalued) :
    IgnoresValues (MonadState.modifyGet fun t => (⟨⟩, change t) : Action α PUnit) :=
  fun t => congrArg (EStateM.Result.ok PUnit.unit) (hchange t)

theorem bind {first : Action α β} {next : β → Action α γ} (hfirst : IgnoresValues first)
    (hnext : ∀ result, IgnoresValues (next result)) : IgnoresValues (first >>= next) := by
  intro t
  have houtcome' := hfirst t
  cases houtcome : first t with
  | ok result t' =>
    rw [houtcome] at houtcome'
    rw [bind_of_ok houtcome, bind_of_ok houtcome']
    exact hnext result t'
  | error fault t' =>
    rw [houtcome] at houtcome'
    rw [bind_of_error houtcome, bind_of_error houtcome']
    rfl

theorem forM {body : β → Action α PUnit} (hbody : ∀ item, IgnoresValues (body item))
    (items : List β) : IgnoresValues (items.forM body) := by
  induction items with
  | nil => exact pure _
  | cons item rest ih => exact bind (hbody item) fun _ => ih

/-- Tableaus that differ in values only lead to the same result. -/
theorem exists_ok {action : Action α β} (h : IgnoresValues action) {s t' : Tableau α}
    {result : β} (hsame : s.unvalued = t.unvalued) (hok : action t = .ok result t') :
    ∃ s', action s = .ok result s' ∧ s'.unvalued = t'.unvalued := by
  have hboth : mapState unvalued (action s) = .ok result t'.unvalued := by
    rw [← h s, hsame, h t, hok]
    rfl
  cases houtcome : action s with
  | ok result' s' =>
    rw [houtcome] at hboth
    injection hboth with hresult hstate
    exact ⟨s', by rw [hresult], hstate⟩
  | error fault s' =>
    rw [houtcome] at hboth
    cases hboth

end IgnoresValues

/-! ## The simplex method -/

theorem notePivot_ignoresValues (phase : Phase) (history : PivotHistory) (r c : Nat) :
    IgnoresValues (notePivot phase history r c : Action α PivotHistory) := by
  intro t
  unfold notePivot
  simp only [Bind.bind, EStateM.bind, run_get]
  have hpivot : t.unvalued.pivotAt r c = t.pivotAt r c := rfl
  change (if t.checksCycles then _ else _ : Action α PivotHistory) t.unvalued = _
  rw [hpivot]
  split
  · cases (history.push (t.pivotAt r c)).findCycle <;> rfl
  · rfl

theorem phaseOneLoop_ignoresValues (budget : Nat) (history : PivotHistory) :
    IgnoresValues (phaseOneLoop budget history : Action α Unit) := by
  induction budget generalizing history with
  | zero => exact fun _ => rfl
  | succ budget ih =>
    intro t
    have hsame := (choosesAlike_unvalued t).phaseOneStep
    cases hstep : t.phaseOneStep with
    | feasible =>
      rw [phaseOneLoop_of_feasible hstep, phaseOneLoop_of_feasible (hsame.trans hstep)]
      rfl
    | infeasible =>
      rw [phaseOneLoop_of_infeasible hstep, phaseOneLoop_of_infeasible (hsame.trans hstep)]
      rfl
    | pivot r c =>
      rw [phaseOneLoop_of_pivot hstep, phaseOneLoop_of_pivot (hsame.trans hstep),
        notePivot_ignoresValues]
      cases notePivot .one history r c t with
      | ok history' t' => exact ih history' (t'.pivot r c)
      | error fault t' => rfl

theorem phaseTwoLoop_ignoresValues (budget : Nat) (history : PivotHistory) :
    IgnoresValues (phaseTwoLoop budget history : Action α Unit) := by
  induction budget generalizing history with
  | zero => exact fun _ => rfl
  | succ budget ih =>
    intro t
    have hsame := (choosesAlike_unvalued t).phaseTwoStep
    cases hstep : t.phaseTwoStep with
    | optimal =>
      rw [phaseTwoLoop_of_optimal hstep, phaseTwoLoop_of_optimal (hsame.trans hstep)]
      rfl
    | unbounded column =>
      rw [phaseTwoLoop_of_unbounded hstep, phaseTwoLoop_of_unbounded (hsame.trans hstep)]
      rfl
    | pivot r c =>
      rw [phaseTwoLoop_of_pivot hstep, phaseTwoLoop_of_pivot (hsame.trans hstep),
        notePivot_ignoresValues]
      cases notePivot .two history r c t with
      | ok history' t' => exact ih history' (t'.pivot r c)
      | error fault t' => rfl

theorem simplex_ignoresValues (effort : Effort) :
    IgnoresValues (simplex effort : Action α Unit) := by
  intro t
  have hphase : phaseOne effort t.unvalued.cleared =
      mapState unvalued (phaseOne effort t.cleared) :=
    phaseOneLoop_ignoresValues effort.pivots .empty t.cleared
  rw [simplex_eq, simplex_eq, hphase]
  cases phaseOne effort t.cleared with
  | error fault t' => rfl
  | ok result t' =>
    change (if t'.isFeasible then phaseTwo effort t'.unvalued else .ok () t'.unvalued) = _
    dsimp only
    split
    · exact phaseTwoLoop_ignoresValues effort.pivots .empty t'
    · rfl

/-! ## The search -/

section Search

variable {space : SearchSpace α}

theorem addCut_ignoresValues (cut : Cut α) : IgnoresValues (addCut cut) := by
  intro t
  have hdictionary : t.unvalued.dictionary = t.dictionary := rfl
  rw [addCut_run, addCut_run, registerSlack_unvalued, hdictionary]
  cases addTerms t.dictionary (boundSign (cut.kind == .atMost)) [⟨cut.index, 1⟩] _ with
  | ok row => exact congrArg (EStateM.Result.ok ()) (pushCutRow_unvalued t row)
  | error fault => rfl

theorem solveBranch_ignoresValues (hrounding : space.options.usesRoundingCuts = false)
    (effort : Effort) (cuts : List (Cut α)) : IgnoresValues (solveBranch space effort cuts) := by
  unfold solveBranch
  apply IgnoresValues.bind (IgnoresValues.modify restore_unvalued)
  intro _
  apply IgnoresValues.bind (IgnoresValues.forM addCut_ignoresValues cuts)
  intro _
  apply IgnoresValues.bind (simplex_ignoresValues effort)
  intro _
  rw [hrounding]
  exact .pure _

theorem acceptNode_ignoresValues (search : Search α) (branch : Branch α) :
    IgnoresValues (acceptNode space search branch) := by
  intro t
  have hkept : keptWith space search t.unvalued = keptWith space search t := by
    rw [keptWith, keptWith, basicSolution_unvalued]
    rfl
  rw [acceptNode_eq, acceptNode_eq, hkept]
  split <;> rfl

theorem splitNode_ignoresValues (search : Search α) (branch : Branch α) :
    IgnoresValues (splitNode space search branch) := by
  intro t
  have hsaved : (if search.nodes == 1 then t.unvalued.save else t.unvalued) =
      (if search.nodes == 1 then t.save else t).unvalued := by
    have hsave : t.unvalued.save = t.save.unvalued := by
      simp only [save, unvalued, Array.size_map]
    rw [hsave]
    split <;> rfl
  rw [splitNode_eq, splitNode_eq, hsaved]
  dsimp only
  generalize (if search.nodes == 1 then t.save else t) = saved
  rw [branchingVariable?_unvalued]
  cases saved.branchingVariable? space.options.branching space.integers <;> rfl

theorem visitNode_ignoresValues (search : Search α) (branch : Branch α) :
    IgnoresValues (visitNode space search branch) := by
  intro t
  rw [visitNode_eq, visitNode_eq, acceptNode_ignoresValues, splitNode_ignoresValues]
  change (if !t.isFeasible then _ else if !t.isBounded then _
    else if search.isFathomed t.objectiveValue t.secondaryValues then _
    else if t.isIntegralOn space.integers then _ else _) = _
  split
  · rfl
  split
  · rfl
  split
  · rfl
  split <;> rfl

theorem explore_ignoresValues (hrounding : space.options.usesRoundingCuts = false)
    (effort : Effort) (budget : Nat) (search : Search α) :
    IgnoresValues (explore space effort budget search) := by
  induction budget generalizing search with
  | zero => exact fun _ => rfl
  | succ budget ih =>
    intro t
    rw [explore_succ, explore_succ]
    cases search.branches with
    | nil => rfl
    | cons branch branches =>
      dsimp only
      change (if Search.isTimedOut _ space effort || Search.isCloseEnough _ space t.rootEvaluation
        then _ else _) = _
      split
      · rfl
      split
      · exact ih _ t
      · apply IgnoresValues.bind (solveBranch_ignoresValues hrounding effort branch.cuts)
        intro _
        apply IgnoresValues.bind (visitNode_ignoresValues _ branch)
        intro outcome
        cases outcome with
        | «continue» search' => exact ih search'
        | final search' => exact .pure _

theorem finishSearch_ignoresValues (hrounding : space.options.usesRoundingCuts = false)
    (effort : Effort) (search : Search α) : IgnoresValues (finishSearch space effort search) := by
  intro t
  cases hincumbent : search.incumbent with
  | none =>
    rw [finishSearch_of_none effort hincumbent, finishSearch_of_none effort hincumbent,
      restore_unvalued]
    rfl
  | some incumbent =>
    unfold finishSearch
    rw [hincumbent]
    apply IgnoresValues.bind
      (solveBranch_ignoresValues hrounding effort incumbent.branch.cuts)
    intro _ _
    rfl

end Search

end Tableau

end MixedInteger
