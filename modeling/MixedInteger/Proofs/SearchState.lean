import MixedInteger.Proofs.RoundingState

/-!
# What a solve leaves behind

A solve pivots on the rows of the model and, if there are integer variables, then
works on top of a snapshot.  Whatever way it ends, leaving the search afterwards
shows the tableau of the first node and nothing else: the rows of the model after the
pivots of the first relaxation, and below them the rounding cuts made at that node.
The statements hold for every kind of scalar.
-/

namespace MixedInteger

def Variable.traits {α : Type} [Scalar α] (data : Variable α) : Variable α :=
  { data with value := 0 }

namespace Tableau

variable {α : Type} [Scalar α]

/-! ## Cuts -/

theorem addToRow?_of_mentions {d : Dictionary α} {index : Nat} (hindex : d.Mentions index)
    (coefficient : α) (row : Array α) :
    ∃ row', addToRow? d index coefficient row = some row' ∧ row'.size = row.size := by
  unfold addToRow?
  cases hcolumn : d.column? index with
  | some c => exact ⟨_, rfl, Dictionary.size_addAt ..⟩
  | none =>
    cases hrow : d.row? index with
    | some r => exact ⟨_, rfl, Dictionary.size_subtractMultiple ..⟩
    | none => simp [Dictionary.Mentions, hcolumn, hrow] at hindex

theorem addTerms_of_mentions {d : Dictionary α} {terms : List (Term α)}
    (hterms : ∀ term ∈ terms, d.Mentions term.index) (sign : α) (row : Array α) :
    ∃ row', addTerms d sign terms row = .ok row' ∧ row'.size = row.size := by
  induction terms generalizing row with
  | nil => exact ⟨row, rfl, rfl⟩
  | cons term rest ih =>
    obtain ⟨hterm, hrest⟩ := List.forall_mem_cons.1 hterms
    obtain ⟨middle, hmiddle, hsize⟩ := addToRow?_of_mentions hterm (sign * term.coefficient) row
    obtain ⟨row', hrow', hsize'⟩ := ih hrest middle
    exact ⟨row', by rw [addTerms, hmiddle]; exact hrow', hsize'.trans hsize⟩

/-- A constraint over variables of the tableau becomes a row. -/
theorem addConstraint_of_mentions {t : Tableau α} {terms : List (Term α)}
    (hterms : ∀ term ∈ terms, t.dictionary.Mentions term.index) (slack : Nat)
    (isUpperBound : Bool) (rhs : α) :
    ∃ row, addTerms t.dictionary (boundSign isUpperBound) terms
          ((Array.replicate t.dictionary.width 0).setIfInBounds 0 (boundSign isUpperBound * rhs)) =
        .ok row ∧ row.size = t.dictionary.width ∧
      addConstraint slack isUpperBound rhs terms t =
        .ok () (t.modifyDictionary fun d => d.pushRow slack row) := by
  obtain ⟨row, hrow, hsize⟩ := addTerms_of_mentions hterms (boundSign isUpperBound)
    ((Array.replicate t.dictionary.width 0).setIfInBounds 0 (boundSign isUpperBound * rhs))
  refine ⟨row, hrow, by simpa using hsize, ?_⟩
  simp only [addConstraint, bind, EStateM.bind, run_get, hrow]
  rfl

section Cuts

variable {root t : Tableau α}

/-- A cut becomes a row, unless its variable is not there. -/
theorem addCut_run (cut : Cut α) (t : Tableau α) :
    addCut cut t =
      match addTerms t.dictionary (boundSign (cut.kind == .atMost)) [⟨cut.index, 1⟩]
        ((Array.replicate t.dictionary.width 0).setIfInBounds 0
          (boundSign (cut.kind == .atMost) * cut.value)) with
      | .ok row => .ok () (t.pushCutRow row)
      | .error fault => .error fault t.registerSlack.2 := by
  have hadd : addCut cut t = addConstraint t.registerSlack.1 (cut.kind == .atMost) cut.value
      [⟨cut.index, 1⟩] t.registerSlack.2 := rfl
  have hdictionary : t.registerSlack.2.dictionary = t.dictionary := rfl
  rw [hadd, addConstraint, bind_of_ok (run_get _), hdictionary]
  cases addTerms t.dictionary (boundSign (cut.kind == .atMost)) [⟨cut.index, 1⟩] _ <;> rfl

/-- A cut on a variable of the tableau becomes a row of the search. -/
theorem addCut_of_mentions (h : IsSearchFrom root t) (hroot : root.IsSound) {cut : Cut α}
    (hcut : t.dictionary.Mentions cut.index) :
    ∃ t', addCut cut t = .ok () t' ∧ IsSearchFrom root t' ∧
      ∀ index, t.dictionary.Mentions index → t'.dictionary.Mentions index := by
  have hterms : ∀ term ∈ [Term.mk cut.index (1 : α)],
      t.registerSlack.2.dictionary.Mentions term.index := by
    intro term hterm
    rw [List.mem_singleton] at hterm
    rw [hterm]
    exact hcut
  obtain ⟨row, -, hsize, hadd⟩ := addConstraint_of_mentions hterms t.registerSlack.1
    (cut.kind == .atMost) cut.value
  refine ⟨_, hadd, h.register_pushRow hroot (fun _ => rfl) hsize, ?_⟩
  intro index hindex
  exact (Dictionary.mentions_pushRow h.sound.not_mentions_allocate row index).2 (.inr hindex)

theorem addCuts_of_mentions (h : IsSearchFrom root t) (hroot : root.IsSound)
    {cuts : List (Cut α)} (hcuts : ∀ cut ∈ cuts, t.dictionary.Mentions cut.index) :
    ∃ t', addCuts cuts t = .ok () t' ∧ IsSearchFrom root t' := by
  induction cuts generalizing t with
  | nil => exact ⟨t, rfl, h⟩
  | cons cut rest ih =>
    obtain ⟨hcut, hrest⟩ := List.forall_mem_cons.1 hcuts
    obtain ⟨t', hadd, hsearch, hmentions⟩ := addCut_of_mentions h hroot hcut
    obtain ⟨t'', hadds, hsearch'⟩ := ih hsearch fun cut' hcut' => hmentions _ (hrest cut' hcut')
    exact ⟨t'', (forM_cons_of_ok hadd).trans hadds, hsearch'⟩

end Cuts

/-! ## Nodes of a search -/

/-- Pivots of a search stay within it. -/
theorem IsSearchFrom.simplex {root t : Tableau α} (h : IsSearchFrom root t) (effort : Effort) :
    IsSearchFrom root (finalState (Tableau.simplex effort t)) := by
  obtain ⟨hframe, hrun⟩ := simplex_onlyPivots effort t
  exact h.of_dictionary (hrun.consistent h.sound.consistent) (hrun.mentions h.sound.consistent)
    hframe.precision hframe.checksCycles hframe.pool hframe.arena hframe.snapshot

/-- Rounding cuts of a search stay within it. -/
theorem IsSearchFrom.roundingRounds {root t : Tableau α} (h : IsSearchFrom root t)
    (hroot : root.IsSound) (effort : Effort) (integers : List Nat) (rounds : Nat) :
    IsSearchFrom root (finalState (Tableau.roundingRounds effort integers rounds t)) := by
  apply roundingRounds_kept (IsSearchFrom root) _ h
  intro source _ _ hsource
  apply IsSearchFrom.simplex
  exact addRoundingCuts_kept (IsSearchFrom root)
    (fun _ _ ht hrow => ht.pushCutRow hroot hrow)
    (fun _ ht => ht.sound.consistent.row_size) hsource integers

/-- The cuts of all branches that a search remembers are on variables in a list. -/
structure CutsWithin (integers : List Nat) (search : Search α) : Prop where
  branches : ∀ branch ∈ search.branches, ∀ cut ∈ branch.cuts, cut.index ∈ integers
  incumbent : ∀ incumbent ∈ search.incumbent, ∀ cut ∈ incumbent.branch.cuts,
    cut.index ∈ integers

theorem mem_basicValues {t : Tableau α} {indices : List Nat} {entry : Nat × α}
    (hentry : entry ∈ t.basicValues indices) : entry.1 ∈ indices := by
  obtain ⟨index, hindex, hsome⟩ := List.mem_filterMap.1 hentry
  obtain ⟨r, -, rfl⟩ := Option.map_eq_some_iff.1 hsome
  exact hindex

/-- A search branches on one of the integer variables. -/
theorem mem_of_branchingVariable? {t : Tableau α} {rule : Branching} {indices : List Nat}
    {found : Nat × α} (hfound : t.branchingVariable? rule indices = some found) :
    found.1 ∈ indices := by
  cases rule with
  | mostFractional =>
    obtain ⟨mark, hmem⟩ := mem_of_select_eq_some hfound
    obtain ⟨entry, hentry, heq⟩ := List.mem_map.1 hmem
    rw [Prod.mk.injEq] at heq
    rw [← heq.1]
    exact mem_basicValues hentry
  | lowestCostFractional =>
    obtain ⟨mark, hmem⟩ := mem_of_select_eq_some hfound
    obtain ⟨entry, hentry, heq⟩ := List.mem_map.1 hmem
    rw [Prod.mk.injEq] at heq
    rw [← heq.1]
    exact mem_basicValues (List.mem_filter.1 hentry).1

theorem cutsWithin_split {integers : List Nat} {search : Search α}
    (h : CutsWithin integers search) {branch : Branch α}
    (hbranch : ∀ cut ∈ branch.cuts, cut.index ∈ integers) (order : NodeSelection) (bound : α)
    {index : Nat} (hindex : index ∈ integers) (value : α) :
    CutsWithin integers (search.split order branch bound index value) := by
  have hbeside (kind : CutKind) : ∀ cut ∈ branch.cutsBeside index kind, cut.index ∈ integers :=
    fun cut hcut => hbranch cut (List.mem_filter.1 hcut).1
  have hboth : ∀ branch' ∈ branch.low bound index value :: branch.high bound index value ::
      search.branches, ∀ cut ∈ branch'.cuts, cut.index ∈ integers := by
    intro branch' hbranch' cut hcut
    rcases List.mem_cons.1 hbranch' with rfl | hrest
    · rcases List.mem_append.1 hcut with hold | hnew
      · exact hbeside .atMost cut hold
      · rw [List.mem_singleton] at hnew
        rw [hnew]
        exact hindex
    rcases List.mem_cons.1 hrest with rfl | hold
    · rcases List.mem_append.1 hcut with hold | hnew
      · exact hbeside .atLeast cut hold
      · rw [List.mem_singleton] at hnew
        rw [hnew]
        exact hindex
    · exact h.branches branch' hold cut hcut
  refine ⟨?_, h.incumbent⟩
  intro branch' hbranch'
  apply hboth
  cases order with
  | bestBound => exact List.mem_mergeSort.1 hbranch'
  | depthFirst => exact hbranch'

section Nodes

variable {root t : Tableau α} {space : SearchSpace α}

theorem solveBranch_of_addCuts (effort : Effort) {cuts : List (Cut α)} {t' : Tableau α}
    (hadd : addCuts cuts t.restore = .ok () t') :
    solveBranch space effort cuts t =
      match simplex effort t' with
      | .ok _ t'' =>
        if space.options.usesRoundingCuts then
          roundingRounds effort space.integers effort.rounds t''
        else .ok () t''
      | .error fault t'' => .error fault t'' := by
  have hsolve : solveBranch space effort cuts t =
      (do
        simplex effort
        if space.options.usesRoundingCuts then
          roundingRounds effort space.integers effort.rounds : Action α Unit) t' :=
    bind_of_ok hadd
  rw [hsolve]
  cases hsimplex : simplex effort t' with
  | ok result t'' =>
    rw [bind_of_ok hsimplex]
    dsimp only
    split <;> rfl
  | error fault t'' => exact bind_of_error hsimplex

theorem solveBranch_of_error {effort : Effort} {cuts : List (Cut α)} {fault : Fault}
    {t' : Tableau α} (hadd : addCuts cuts t.restore = .error fault t') :
    solveBranch space effort cuts t = .error fault t' :=
  (bind_of_ok (run_modify restore t)).trans (bind_of_error hadd)

/-- What a run of the simplex method and the rounds after it preserve, solving a branch
preserves. -/
theorem solveBranch_ends (kept : Tableau α → Prop) (failed : Fault → Tableau α → Prop)
    (effort : Effort) {cuts : List (Cut α)} {t' : Tableau α}
    (hadd : addCuts cuts t.restore = .ok () t')
    (hsimplex : Ends (simplex effort t') (fun _ => kept) failed)
    (hrounds : space.options.usesRoundingCuts = true → ∀ t'', simplex effort t' = .ok () t'' →
      kept t'' →
        Ends (roundingRounds effort space.integers effort.rounds t'') (fun _ => kept) failed) :
    Ends (solveBranch space effort cuts t) (fun _ => kept) failed := by
  rw [solveBranch_of_addCuts effort hadd]
  cases houtcome : simplex effort t' with
  | error fault t'' =>
    rw [houtcome] at hsimplex
    exact hsimplex
  | ok result t'' =>
    rw [houtcome] at hsimplex
    dsimp only
    split
    · next hrounding => exact hrounds hrounding t'' houtcome hsimplex
    · exact hsimplex

theorem solveBranch_kept (kept : Tableau α → Prop) (effort : Effort) {cuts : List (Cut α)}
    {t' : Tableau α} (hadd : addCuts cuts t.restore = .ok () t')
    (hsimplex : kept (finalState (simplex effort t')))
    (hrounds : ∀ t'', kept t'' →
      kept (finalState (roundingRounds effort space.integers effort.rounds t''))) :
    kept (finalState (solveBranch space effort cuts t)) :=
  (solveBranch_ends kept (fun _ => kept) effort hadd (Ends.of_finalState hsimplex)
    fun _ t'' _ ht'' => Ends.of_finalState (hrounds t'' ht'')).finalState

theorem precision_simplex (effort : Effort) (t : Tableau α) :
    (finalState (simplex effort t)).precision = t.precision :=
  (simplex_onlyPivots effort t).1.precision

theorem precision_addRoundingCuts (t : Tableau α) (indices : List Nat) :
    (t.addRoundingCuts indices).1.precision = t.precision :=
  addRoundingCuts_pushed (fun t' => t'.precision = t.precision) (fun _ _ h => h) rfl indices

theorem precision_addCuts (cuts : List (Cut α)) (t : Tableau α) :
    (finalState (addCuts cuts t)).precision = t.precision := by
  have hcuts : Ends (addCuts cuts t) (fun _ t' => t'.precision = t.precision)
      fun _ t' => t'.precision = t.precision := by
    apply Ends.forM addCut (fun t' => t'.precision = t.precision) _ cuts _ t rfl
    intro cut _ t' ht'
    rw [addCut_run]
    split <;> exact ht'
  exact hcuts.finalState

/-- No node changes the precision, however its branch ends. -/
theorem precision_solveBranch (space : SearchSpace α) (effort : Effort) (cuts : List (Cut α))
    (t : Tableau α) :
    (finalState (solveBranch space effort cuts t)).precision = t.precision := by
  have hcuts := (precision_addCuts cuts t.restore).trans (precision_discardSearch t)
  cases hadd : addCuts cuts t.restore with
  | error fault t' =>
    rw [hadd] at hcuts
    rw [solveBranch_of_error hadd]
    exact hcuts
  | ok result t' =>
    rw [hadd] at hcuts
    apply solveBranch_kept (fun t' => t'.precision = t.precision) effort hadd
    · exact (precision_simplex effort t').trans hcuts
    · intro t'' ht''
      apply roundingRounds_kept (fun t' => t'.precision = t.precision) _ ht''
      intro source _ _ hsource
      exact ((precision_simplex effort _).trans (precision_addRoundingCuts source _)).trans hsource

/-- Solving a branch stays within the search. -/
theorem solveBranch_search (h : IsSearchFrom root t) (hroot : root.IsSound) (effort : Effort)
    {cuts : List (Cut α)} (hcuts : ∀ cut ∈ cuts, root.dictionary.Mentions cut.index) :
    IsSearchFrom root (finalState (solveBranch space effort cuts t)) := by
  have hcuts' : ∀ cut ∈ cuts, t.restore.dictionary.Mentions cut.index := by
    rw [h.dictionary_restore]
    exact hcuts
  obtain ⟨t', hadd, hsearch⟩ := addCuts_of_mentions (h.restore hroot) hroot hcuts'
  apply solveBranch_kept (IsSearchFrom root) effort hadd (hsearch.simplex effort)
  intro t'' ht''
  exact ht''.roundingRounds hroot effort space.integers effort.rounds

omit [Scalar α] in
/-- The flags of a tableau play no part in a search. -/
theorem IsSearchFrom.of_same {t t' : Tableau α} (h : IsSearchFrom root t)
    (hdictionary : t'.dictionary = t.dictionary) (hprecision : t'.precision = t.precision)
    (hchecks : t'.checksCycles = t.checksCycles) (hpool : t'.pool = t.pool)
    (harena : t'.arena = t.arena) (hsnapshot : t'.snapshot = t.snapshot) :
    IsSearchFrom root t' := by
  refine h.of_dictionary ?_ ?_ hprecision hchecks hpool harena hsnapshot
  · rw [hdictionary]
    exact h.sound.consistent
  · intro index
    rw [hdictionary]

theorem visitNode_eq (search : Search α) (branch : Branch α) (t : Tableau α) :
    visitNode space search branch t =
      if !t.isFeasible then .ok (.continue search) t
      else if !t.isBounded then .ok (.final search) { t with nodesExplored := search.nodes }
      else if search.isFathomed t.objectiveValue t.secondaryValues then .ok (.continue search) t
      else if t.isIntegralOn space.integers then acceptNode space search branch t
      else splitNode space search branch t := by
  simp only [visitNode, bind, EStateM.bind, run_get]
  split
  · rfl
  split
  · rfl
  split
  · rfl
  split <;> rfl

/-- The kept solutions after the present one was accepted. -/
def keptWith (space : SearchSpace α) (search : Search α) (t : Tableau α) :
    List (KeptSolution α) :=
  if space.options.keepsSolutions then
    search.kept ++ [⟨space.reported t.objectiveValue, t.basicSolution⟩]
  else search.kept

theorem acceptNode_eq (search : Search α) (branch : Branch α) (t : Tableau α) :
    acceptNode space search branch t =
      if search.nodes == 1 then
        .ok (.final { search with kept := keptWith space search t })
          { t with isIntegral := true, nodesExplored := search.nodes }
      else
        .ok (.continue { search with
            kept := keptWith space search t
            incumbent := some ⟨t.objectiveValue, t.secondaryValues, branch⟩ })
          { t with isIntegral := true } := by
  simp only [acceptNode, bind, EStateM.bind, run_get, run_set]
  split <;> rfl

theorem splitNode_eq (search : Search α) (branch : Branch α) (t : Tableau α) :
    splitNode space search branch t =
      let t := if search.nodes == 1 then t.save else t
      match t.branchingVariable? space.options.branching space.integers with
      | none => .error (Cause.nothingToBranchOn : Fault) t
      | some (index, value) =>
        .ok (.continue (search.split space.options.nodeSelection branch t.objectiveValue index
          value)) t := by
  have hsplit : splitNode space search branch t =
      ((fun t => match t.branchingVariable? space.options.branching space.integers with
        | none => raise .nothingToBranchOn
        | some (index, value) =>
          pure (.continue (search.split space.options.nodeSelection branch t.objectiveValue
            index value)) : Tableau α → Action α (NodeOutcome α))
        (if search.nodes == 1 then t.save else t)) (if search.nodes == 1 then t.save else t) := by
    unfold splitNode
    split <;> rfl
  rw [hsplit]
  generalize (if search.nodes == 1 then t.save else t) = saved
  simp only
  cases saved.branchingVariable? space.options.branching space.integers <;> rfl

/-- What a later node does: it stays within the search, and all its cuts are on
integer variables. -/
theorem visitNode_search (h : IsSearchFrom root t) (search : Search α) (hnodes : search.nodes ≠ 1)
    (hsearch : CutsWithin space.integers search) {branch : Branch α}
    (hbranch : ∀ cut ∈ branch.cuts, cut.index ∈ space.integers) :
    Ends (visitNode space search branch t)
      (fun outcome t' => IsSearchFrom root t' ∧
        ∀ search', outcome = .continue search' →
          CutsWithin space.integers search' ∧ search'.nodes = search.nodes)
      (fun _ => IsSearchFrom root) := by
  have hnodes' : (search.nodes == 1) = false := by simpa using hnodes
  rw [visitNode_eq]
  split
  · refine ⟨h, ?_⟩
    rintro search' ⟨⟩
    exact ⟨hsearch, rfl⟩
  split
  · exact ⟨h.of_same rfl rfl rfl rfl rfl rfl, by simp⟩
  split
  · refine ⟨h, ?_⟩
    rintro search' ⟨⟩
    exact ⟨hsearch, rfl⟩
  split
  · rw [acceptNode_eq, hnodes']
    refine ⟨h.of_same rfl rfl rfl rfl rfl rfl, ?_⟩
    rintro search' ⟨⟩
    refine ⟨⟨hsearch.branches, ?_⟩, rfl⟩
    rintro incumbent ⟨⟩
    exact hbranch
  · rw [splitNode_eq, hnodes']
    cases hfound : t.branchingVariable? space.options.branching space.integers with
    | none =>
      simp only [Bool.false_eq_true, if_false, hfound]
      exact h
    | some found =>
      simp only [Bool.false_eq_true, if_false, hfound]
      refine ⟨h, ?_⟩
      rintro search' ⟨⟩
      exact ⟨cutsWithin_split hsearch hbranch _ _ (mem_of_branchingVariable? hfound) _, rfl⟩

theorem explore_succ (effort : Effort) (budget : Nat) (search : Search α) (t : Tableau α) :
    explore space effort (budget + 1) search t =
      match search.branches with
      | [] => .ok (.continue search) t
      | branch :: branches =>
        let search := { search with branches := branches }
        if search.isTimedOut space effort || search.isCloseEnough space t.rootEvaluation then
          .ok (.continue search) t
        else if branch.bound.any search.isWorse then explore space effort budget search t
        else
          (do
            solveBranch space effort branch.cuts
            match ← visitNode space { search with nodes := search.nodes + 1 } branch with
            | .continue search => explore space effort budget search
            | .final search => pure (.final search) : Action α (NodeOutcome α)) t := by
  rw [explore]
  cases search.branches with
  | nil => rfl
  | cons branch branches =>
    simp only [bind, EStateM.bind, run_get]
    split
    · rfl
    split <;> rfl

/-- The loop over later nodes stays within the search. -/
theorem explore_search (hroot : root.IsSound)
    (hintegers : ∀ index ∈ space.integers, root.dictionary.Mentions index) (effort : Effort)
    (budget : Nat) {search : Search α} (hnodes : 0 < search.nodes)
    (hsearch : CutsWithin space.integers search) (h : IsSearchFrom root t) :
    Ends (explore space effort budget search t)
      (fun outcome t' => IsSearchFrom root t' ∧
        ∀ search', outcome = .continue search' → CutsWithin space.integers search')
      (fun _ => IsSearchFrom root) := by
  induction budget generalizing search t with
  | zero => exact h
  | succ budget ih =>
    rw [explore_succ]
    cases hbranches : search.branches with
    | nil =>
      refine ⟨h, ?_⟩
      rintro search' ⟨⟩
      exact hsearch
    | cons branch branches =>
      have hall := hsearch.branches
      rw [hbranches] at hall
      obtain ⟨hbranch, hrest⟩ := List.forall_mem_cons.1 hall
      have hpopped : CutsWithin space.integers { search with branches := branches } :=
        ⟨hrest, hsearch.incumbent⟩
      simp only
      split
      · refine ⟨h, ?_⟩
        rintro search' ⟨⟩
        exact hpopped
      split
      · exact ih hnodes hpopped h
      · apply Ends.bind (Ends.of_finalState (solveBranch_search h hroot effort fun cut hcut =>
          hintegers _ (hbranch cut hcut)))
        intro _ t' ht'
        have hlater : search.nodes + 1 ≠ 1 := by omega
        apply Ends.bind (visitNode_search ht'
          { search with branches := branches, nodes := search.nodes + 1 } hlater
          ⟨hrest, hsearch.incumbent⟩ hbranch)
        rintro outcome t'' ⟨ht'', houtcome⟩
        cases outcome with
        | «continue» search' =>
          obtain ⟨hsearch', hnodes'⟩ := houtcome search' rfl
          exact ih (by rw [hnodes']; exact Nat.succ_pos _) hsearch' ht''
        | final search' => exact ⟨ht'', by simp⟩

/-- Without a solution there is nothing to solve again. -/
theorem finishSearch_of_none (effort : Effort) {search : Search α}
    (hincumbent : search.incumbent = none) (t : Tableau α) :
    finishSearch space effort search t =
      .ok () { t.restore with
        isFeasible := false, isIntegral := false, nodesExplored := search.nodes } := by
  unfold finishSearch
  rw [hincumbent]
  rfl

theorem finishSearch_of_some {effort : Effort} {search : Search α} {incumbent : Incumbent α}
    (hincumbent : search.incumbent = some incumbent) {t t' : Tableau α}
    (hsolve : solveBranch space effort incumbent.branch.cuts t = .ok () t') :
    finishSearch space effort search t =
      .ok () { t' with isIntegral := true, nodesExplored := search.nodes } := by
  unfold finishSearch
  rw [hincumbent]
  exact bind_of_ok hsolve

theorem finishSearch_search (hroot : root.IsSound)
    (hintegers : ∀ index ∈ space.integers, root.dictionary.Mentions index) (effort : Effort)
    {search : Search α} (hsearch : CutsWithin space.integers search) (h : IsSearchFrom root t) :
    Ends (finishSearch space effort search t) (fun _ => IsSearchFrom root)
      (fun _ => IsSearchFrom root) := by
  unfold finishSearch
  cases hincumbent : search.incumbent with
  | none => exact (h.restore hroot).of_same rfl rfl rfl rfl rfl rfl
  | some incumbent =>
    have hcuts : ∀ cut ∈ incumbent.branch.cuts, root.dictionary.Mentions cut.index :=
      fun cut hcut => hintegers _ (hsearch.incumbent incumbent hincumbent cut hcut)
    apply Ends.bind (Ends.of_finalState (solveBranch_search h hroot effort hcuts))
    intro _ t' ht'
    exact ht'.of_same rfl rfl rfl rfl rfl rfl

end Nodes

/-! ## Changes of what is known about variables -/

/-- Two tableaus that differ in their verdict, and in their variables only as far as a
view does not show. -/
structure SameView {β : Type} (view : Variable α → β) (t t' : Tableau α) : Prop where
  precision : t'.precision = t.precision
  dictionary : t'.dictionary = t.dictionary
  pool : t'.pool = t.pool
  snapshot : t'.snapshot = t.snapshot
  arena_size : t'.arena.size = t.arena.size
  view_eq : ∀ index, (t'.lookup? index).map view = (t.lookup? index).map view

namespace SameView

variable {β : Type} {view : Variable α → β} {t t' t'' : Tableau α}

omit [Scalar α]

theorem refl (t : Tableau α) : SameView view t t :=
  ⟨rfl, rfl, rfl, rfl, rfl, fun _ => rfl⟩

theorem trans (hfirst : SameView view t t') (hsecond : SameView view t' t'') :
    SameView view t t'' :=
  ⟨hsecond.precision.trans hfirst.precision, hsecond.dictionary.trans hfirst.dictionary,
    hsecond.pool.trans hfirst.pool, hsecond.snapshot.trans hfirst.snapshot,
    hsecond.arena_size.trans hfirst.arena_size,
    fun index => (hsecond.view_eq index).trans (hfirst.view_eq index)⟩

theorem isSome_lookup? (h : SameView view t t') (index : Nat) :
    (t'.lookup? index).isSome = (t.lookup? index).isSome := by
  have hview := congrArg Option.isSome (h.view_eq index)
  rw [Option.isSome_map, Option.isSome_map] at hview
  exact hview

theorem hasSoundPool (h : SameView view t t') (ht : t.HasSoundPool) : t'.HasSoundPool := by
  refine ⟨?_, ?_, ?_, ?_⟩
  · rw [h.pool]
    exact ht.free_nodup
  · rw [h.pool]
    exact ht.free_lt
  · rw [h.pool]
    intro index hindex
    have hsome := h.isSome_lookup? index
    rw [ht.free_unknown index hindex] at hsome
    simpa using hsome
  · rw [h.pool, h.arena_size]
    exact ht.arena_size_le

theorem isSound (h : SameView view t t') (ht : t.IsSound) : t'.IsSound := by
  refine ⟨h.hasSoundPool ht.toHasSoundPool, ?_, ?_⟩
  · rw [h.dictionary]
    exact ht.consistent
  · intro index
    rw [h.dictionary, h.isSome_lookup?]
    exact ht.mentions_iff index

/-- Leaving a search commutes with a change of what is known. -/
theorem discardSearch (h : SameView view t t') :
    SameView view t.discardSearch t'.discardSearch := by
  cases hsnapshot : t.snapshot with
  | none =>
    rw [discardSearch_eq_self hsnapshot, discardSearch_eq_self (h.snapshot.trans hsnapshot)]
    exact h
  | some snapshot =>
    have hsnapshot' := h.snapshot.trans hsnapshot
    refine ⟨?_, ?_, ?_, rfl, ?_, ?_⟩
    · rw [precision_discardSearch, precision_discardSearch, h.precision]
    · unfold Tableau.discardSearch restore
      rw [hsnapshot, hsnapshot']
    · unfold Tableau.discardSearch restore
      rw [hsnapshot, hsnapshot']
    · unfold Tableau.discardSearch restore
      rw [hsnapshot, hsnapshot']
      simp only [size_foldl_clear, Array.size_extract, h.arena_size]
    · intro index
      have hleft : t.discardSearch.lookup? index = _ := lookup?_restore hsnapshot index
      have hright : t'.discardSearch.lookup? index = _ := lookup?_restore hsnapshot' index
      rw [hleft, hright]
      split
      · exact h.view_eq index
      · rfl

theorem modifyVariable {change : Variable α → Variable α}
    (hchange : ∀ data, view (change data) = view data) (t : Tableau α) (index : Nat) :
    SameView view t (t.modifyVariable index change) := by
  refine ⟨rfl, rfl, rfl, rfl, Array.size_modify .., ?_⟩
  intro other
  rw [lookup?_modifyVariable]
  split
  · rw [Option.map_map]
    exact congrArg (Option.map · _) (funext hchange)
  · rfl

end SameView

/-! ## Whole solves -/

def traits? (t : Tableau α) (index : Nat) : Option (Variable α) :=
  (t.lookup? index).map Variable.traits

/-- A tableau after a solve: it is sound, and leaving the search shows the same
variables with the rows after certain pivots. -/
structure Settles (allowed : Dictionary α → Nat → Nat → Prop) (t t' : Tableau α) : Prop where
  precision : t'.precision = t.precision
  sound : t'.IsSound
  root_sound : t'.discardSearch.IsSound
  root_pool : t'.discardSearch.pool = t.pool
  root_traits : ∀ index, t'.discardSearch.traits? index = t.traits? index
  root_pivots : Dictionary.PivotsTo allowed t.dictionary t'.discardSearch.dictionary

theorem updateValues_eq (t : Tableau α) (indices : List Nat) :
    t.updateValues indices = { t with arena := (t.updateValues indices).arena } := by
  unfold updateValues
  induction indices generalizing t with
  | nil => rfl
  | cons index rest ih => exact ih _

/-- Writing back the values of a solution changes nothing else. -/
theorem sameView_updateValues (t : Tableau α) (indices : List Nat) :
    SameView Variable.traits t (t.updateValues indices) := by
  unfold updateValues
  induction indices generalizing t with
  | nil => exact SameView.refl t
  | cons index rest ih =>
    rw [List.foldl_cons]
    apply SameView.trans _ (ih _)
    apply SameView.modifyVariable
    intro data
    rfl

section Roots

variable {allowed : Dictionary α → Nat → Nat → Prop} {t : Tableau α} {space : SearchSpace α}

omit [Scalar α] in
theorem IsSound.of_sameFrame [Scalar α] {t' : Tableau α} (h : t.IsSound) (hframe : SameFrame t t')
    (hrun : Dictionary.PivotsTo allowed t.dictionary t'.dictionary) : t'.IsSound :=
  h.of_dictionary (hrun.consistent h.consistent) (hrun.mentions h.consistent) hframe.pool
    hframe.arena

/-- A tableau on which only pivots were made. -/
def OnlyPivoted (allowed : Dictionary α → Nat → Nat → Prop) (t t' : Tableau α) : Prop :=
  SameFrame t t' ∧ Dictionary.PivotsTo allowed t.dictionary t'.dictionary

/-- The tableau that the first relaxation of a solve leaves behind. -/
def firstNode (space : SearchSpace α) (effort : Effort) (t : Tableau α) : Tableau α :=
  if space.integers.isEmpty then finalState (simplex effort t)
  else if effort.branches = 0 then t
  else finalState (solveBranch space effort [] t)

def firstCuts (space : SearchSpace α) (effort : Effort) (t : Tableau α) : Nat :=
  if space.integers.isEmpty || effort.branches == 0 || !space.options.usesRoundingCuts then 0
  else
    match simplex effort t with
    | .ok _ t' => roundingCount effort space.integers effort.rounds t'
    | .error _ _ => 0

omit [Scalar α] in
theorem restore_eq_self (hsnapshot : t.snapshot = none) : t.restore = t := by
  unfold restore
  rw [hsnapshot]

theorem addCuts_nil (hsnapshot : t.snapshot = none) : addCuts [] t.restore = .ok () t := by
  rw [restore_eq_self hsnapshot]
  rfl

/-- What pivots and new rows preserve, the first relaxation preserves. -/
theorem firstNode_kept (kept : Tableau α → Prop)
    (hpivots : ∀ t t', kept t → OnlyPivoted (fun _ _ _ => True) t t' → kept t')
    (hpush : ∀ t row, kept t → row.size = t.dictionary.width → kept (t.pushCutRow row))
    (hrectangular : ∀ t, kept t → t.dictionary.IsRectangular) (hsnapshot : t.snapshot = none)
    (ht : kept t) (effort : Effort) : kept (t.firstNode space effort) := by
  have hsimplex (t : Tableau α) (ht : kept t) : kept (finalState (simplex effort t)) :=
    hpivots t _ ht (simplex_onlyPivots effort t)
  unfold firstNode
  split
  · exact hsimplex t ht
  split
  · exact ht
  · apply solveBranch_kept kept effort (addCuts_nil hsnapshot) (hsimplex t ht)
    intro t' ht'
    apply roundingRounds_kept kept _ ht'
    intro source _ _ hsource
    exact hsimplex _ (addRoundingCuts_kept kept hpush
      (fun t ht => (hrectangular t ht).row_size) hsource space.integers)

/-- A sound tableau that came from another one by pivots and new rows. -/
structure IsGrownFrom (t t' : Tableau α) : Prop where
  sound : t'.IsSound
  precision : t'.precision = t.precision
  snapshot : t'.snapshot = t.snapshot
  width : t'.dictionary.width = t.dictionary.width
  mentions : ∀ index, t.dictionary.Mentions index → t'.dictionary.Mentions index

theorem isGrownFrom_firstNode (space : SearchSpace α) (effort : Effort) (hsound : t.IsSound)
    (hsnapshot : t.snapshot = none) : IsGrownFrom t (t.firstNode space effort) := by
  refine firstNode_kept (IsGrownFrom t) ?_ ?_ ?_ hsnapshot ?_ effort
  · intro t' t'' ht' hpivots
    refine ⟨ht'.sound.of_sameFrame hpivots.1 hpivots.2, hpivots.1.precision.trans ht'.precision,
      hpivots.1.snapshot.trans ht'.snapshot, hpivots.2.width_eq.trans ht'.width, ?_⟩
    intro index hindex
    exact (hpivots.2.mentions ht'.sound.consistent index).2 (ht'.mentions index hindex)
  · intro t' row ht' hrow
    refine ⟨ht'.sound.pushCutRow hrow, ht'.precision, ht'.snapshot, ht'.width, ?_⟩
    intro index hindex
    exact (Dictionary.mentions_pushRow ht'.sound.not_mentions_allocate row index).2
      (.inr (ht'.mentions index hindex))
  · exact fun _ ht' => ht'.sound.consistent.toIsRectangular
  · exact ⟨hsound, rfl, rfl, rfl, fun _ hindex => hindex⟩

/-- The first relaxation adds one row for every rounding cut. -/
theorem height_firstNode (hsnapshot : t.snapshot = none) (effort : Effort) :
    (t.firstNode space effort).dictionary.height =
      t.dictionary.height + t.firstCuts space effort := by
  have hheight := height_simplex effort t
  unfold firstNode firstCuts
  by_cases hempty : space.integers.isEmpty = true
  · simpa [hempty] using hheight
  by_cases hbranches : effort.branches = 0
  · simp [hempty, hbranches]
  simp only [hempty, hbranches, Bool.false_eq_true, if_false, Bool.false_or, beq_iff_eq,
    Bool.or_eq_true, false_or]
  rw [solveBranch_of_addCuts effort (addCuts_nil hsnapshot)]
  cases hrounding : space.options.usesRoundingCuts with
  | false =>
    cases houtcome : simplex effort t <;> (rw [houtcome] at hheight; exact hheight)
  | true =>
    cases houtcome : simplex effort t with
    | error fault t' =>
      rw [houtcome] at hheight
      exact hheight
    | ok result t' =>
      rw [houtcome] at hheight
      have hrounds := height_roundingRounds effort space.integers effort.rounds t'
      exact hrounds.trans (congrArg (· + _) hheight)

/-- Without rounding cuts the first relaxation makes pivots only. -/
theorem onlyPivoted_firstNode (hsnapshot : t.snapshot = none) (effort : Effort)
    (hcuts : t.firstCuts space effort = 0)
    (hpivots : ∀ event ∈ simplexPivots effort t,
      allowed event.before.dictionary event.row event.column) :
    OnlyPivoted allowed t (t.firstNode space effort) := by
  have hsimplex : OnlyPivoted allowed t (finalState (simplex effort t)) :=
    simplex_pivotsTo allowed effort t hpivots
  unfold firstNode
  unfold firstCuts at hcuts
  by_cases hempty : space.integers.isEmpty = true
  · simpa [hempty] using hsimplex
  by_cases hbranches : effort.branches = 0
  · simpa [hempty, hbranches] using ⟨SameFrame.refl t, .refl _⟩
  simp only [hempty, hbranches, Bool.false_eq_true, if_false, Bool.false_or, beq_iff_eq,
    Bool.or_eq_true, false_or] at hcuts ⊢
  rw [solveBranch_of_addCuts effort (addCuts_nil hsnapshot)]
  cases houtcome : simplex effort t with
  | error fault t' =>
    rw [houtcome] at hsimplex
    exact hsimplex
  | ok result t' =>
    rw [houtcome] at hsimplex hcuts
    cases hrounding : space.options.usesRoundingCuts with
    | false => exact hsimplex
    | true =>
      simp only [hrounding] at hcuts
      dsimp only
      rw [if_pos rfl, roundingRounds_of_no_cuts (by simpa using hcuts)]
      exact hsimplex

/-! ### The search after its first node -/

/-- Leaving the search leads from `t'` back to `root`: there is no snapshot and the rows
are those of `root`, or the snapshot is that of `root`. -/
inductive LeadsBack (root t' : Tableau α) : Prop
  | same (frame : SameFrame root t') (dictionary : t'.dictionary = root.dictionary)
  | search (h : IsSearchFrom root t')

/-- What is known when the loop over branches has ended: leaving the search leads back to
`root`, and there is a solution to return to only if there is a snapshot. -/
inductive Rooted (integers : List Nat) (root : Tableau α) (outcome : NodeOutcome α)
    (t' : Tableau α) : Prop
  | same (frame : SameFrame root t') (dictionary : t'.dictionary = root.dictionary)
      (incumbent : ∀ search, outcome = .continue search → search.incumbent = none)
  | search (h : IsSearchFrom root t')
      (cuts : ∀ search, outcome = .continue search → CutsWithin integers search)

theorem explore_nil (effort : Effort) (budget : Nat) {search : Search α}
    (hbranches : search.branches = []) (t : Tableau α) :
    explore space effort budget search t = .error (Cause.outOfSteps : Fault) t ∨
      explore space effort budget search t = .ok (.continue search) t := by
  cases budget with
  | zero => exact .inl rfl
  | succ budget =>
    refine .inr ?_
    rw [explore_succ, hbranches]

/-- The search when its root has just been solved. -/
def atRoot : Search α := ⟨[], none, [], 1⟩

def rootBranch : Branch α := ⟨none, []⟩

/-- Without branches the root is left as it is. -/
theorem explore_atRoot (effort : Effort) (budget : Nat) (root : Tableau α) :
    Ends (explore space effort budget atRoot root) (Rooted space.integers root)
      (fun _ => LeadsBack root) := by
  have hnil : explore space effort budget atRoot root =
        .error (Cause.outOfSteps : Fault) root ∨
      explore space effort budget atRoot root = .ok (.continue atRoot) root :=
    explore_nil effort budget rfl root
  rcases hnil with hnil | hnil
  · rw [hnil]
    exact .same (SameFrame.refl root) rfl
  · rw [hnil]
    refine .same (SameFrame.refl root) rfl ?_
    rintro search ⟨⟩
    rfl

/-- Once the root is split, everything is a search from it. -/
theorem explore_split {root : Tableau α} (hsound : root.IsSound)
    (hintegers : ∀ index ∈ space.integers, root.dictionary.Mentions index) (effort : Effort)
    (budget : Nat) {found : Nat × α}
    (hfound : root.save.branchingVariable? space.options.branching space.integers = some found) :
    Ends (explore space effort budget (Search.split atRoot space.options.nodeSelection rootBranch
        root.save.objectiveValue found.1 found.2) root.save)
      (Rooted space.integers root) (fun _ => LeadsBack root) := by
  have hwithin : CutsWithin space.integers (atRoot : Search α) :=
    ⟨by simp [atRoot], by simp [atRoot]⟩
  have hroot : ∀ cut ∈ (rootBranch : Branch α).cuts, cut.index ∈ space.integers := by
    simp [rootBranch]
  have hcuts := cutsWithin_split hwithin hroot space.options.nodeSelection
    root.save.objectiveValue (mem_of_branchingVariable? hfound) found.2
  have hnodes : 0 < (Search.split atRoot space.options.nodeSelection rootBranch
      root.save.objectiveValue found.1 found.2).nodes := Nat.one_pos
  have hlater := explore_search hsound hintegers effort budget hnodes hcuts hsound.save
  exact Ends.mono hlater (fun _ _ hpost => .search hpost.1 hpost.2) fun _ _ => .search

/-- From the first node on: it is the last one, or the search goes on from a
snapshot of it. -/
theorem visitRoot_explore {root : Tableau α} (hsound : root.IsSound)
    (hintegers : ∀ index ∈ space.integers, root.dictionary.Mentions index) (effort : Effort)
    (budget : Nat) :
    Ends ((do
        match ← visitNode space atRoot rootBranch with
        | .continue search => explore space effort budget search
        | .final search => pure (.final search) : Action α (NodeOutcome α)) root)
      (Rooted space.integers root) (fun _ => LeadsBack root) := by
  have hvisit := (visitNode_eq atRoot rootBranch root : visitNode space atRoot rootBranch root = _)
  split at hvisit
  · rw [bind_of_ok hvisit]
    exact explore_atRoot effort budget root
  split at hvisit
  · rw [bind_of_ok hvisit]
    exact .same ⟨rfl, rfl, rfl, rfl, rfl⟩ rfl (by simp)
  split at hvisit
  · rw [bind_of_ok hvisit]
    exact explore_atRoot effort budget root
  split at hvisit
  · rw [acceptNode_eq] at hvisit
    rw [bind_of_ok hvisit]
    exact .same ⟨rfl, rfl, rfl, rfl, rfl⟩ rfl (by simp)
  -- Only a split takes the snapshot, so everything after it is a search from the root.
  rw [splitNode_eq] at hvisit
  have hfirst : ((atRoot : Search α).nodes == 1) = true := rfl
  simp only [hfirst, if_true] at hvisit
  cases hfound : root.save.branchingVariable? space.options.branching space.integers with
  | none =>
    rw [hfound] at hvisit
    rw [bind_of_error hvisit]
    exact .search hsound.save
  | some found =>
    rw [hfound] at hvisit
    rw [bind_of_ok hvisit]
    exact explore_split hsound hintegers effort budget hfound

theorem explore_start (effort : Effort) (budget : Nat) (t : Tableau α) :
    explore space effort (budget + 1) Search.start t =
      (do
        solveBranch space effort []
        match ← visitNode space atRoot rootBranch with
        | .continue search => explore space effort budget search
        | .final search => pure (.final search) : Action α (NodeOutcome α)) t := by
  rw [explore_succ]
  rfl

theorem explore_root (hsound : t.IsSound) (hsnapshot : t.snapshot = none)
    (hempty : space.integers.isEmpty = false)
    (hintegers : ∀ index ∈ space.integers, t.dictionary.Mentions index) (effort : Effort) :
    Ends (explore space effort effort.branches Search.start t)
      (Rooted space.integers (t.firstNode space effort))
      (fun _ => LeadsBack (t.firstNode space effort)) := by
  have hgrown := isGrownFrom_firstNode space effort hsound hsnapshot
  unfold firstNode at hgrown ⊢
  rw [hempty] at hgrown ⊢
  cases hbranches : effort.branches with
  | zero => exact .same (SameFrame.refl t) rfl
  | succ budget =>
    rw [hbranches] at hgrown
    rw [explore_start]
    simp only [Bool.false_eq_true, if_false, Nat.add_one_ne_zero] at hgrown ⊢
    cases houtcome : solveBranch space effort [] t with
    | error fault t' =>
      rw [bind_of_error houtcome]
      exact .same (SameFrame.refl t') rfl
    | ok result t' =>
      rw [houtcome] at hgrown
      rw [bind_of_ok houtcome]
      exact visitRoot_explore hgrown.sound
        (fun index hindex => hgrown.mentions index (hintegers index hindex)) effort budget

/-- A search ends, in every case, in a tableau that leads back to its first node. -/
theorem branchAndCut_leadsBack (hsound : t.IsSound) (hsnapshot : t.snapshot = none)
    (hempty : space.integers.isEmpty = false)
    (hintegers : ∀ index ∈ space.integers, t.dictionary.Mentions index) (effort : Effort) :
    Ends (branchAndCut space effort t) (fun _ => LeadsBack (t.firstNode space effort))
      (fun _ => LeadsBack (t.firstNode space effort)) := by
  have hgrown := isGrownFrom_firstNode space effort hsound hsnapshot
  unfold branchAndCut
  apply Ends.bind (explore_root hsound hsnapshot hempty hintegers effort)
  intro outcome t' ht'
  cases outcome with
  | final search =>
    cases ht' with
    | same frame dictionary _ => exact .same frame dictionary
    | search h _ => exact .search h
  | «continue» search =>
    cases ht' with
    | same frame dictionary incumbent =>
      -- Without a snapshot and without a solution there is nothing to return to.
      have hrestore : t'.restore = t' :=
        restore_eq_self (frame.snapshot.trans (hgrown.snapshot.trans hsnapshot))
      have hfinish : finishSearch space effort search t' = .ok () _ :=
        finishSearch_of_none effort (incumbent search rfl) t'
      change Ends ((finishSearch space effort search >>= fun _ => pure search.kept) t') _ _
      rw [bind_of_ok hfinish, hrestore]
      exact .same (frame.trans ⟨rfl, rfl, rfl, rfl, rfl⟩) dictionary
    | search h cuts =>
      have hfinish := finishSearch_search hgrown.sound
        (fun index hindex => hgrown.mentions index (hintegers index hindex)) effort
        (cuts search rfl) h
      apply Ends.bind (Ends.mono hfinish (fun _ _ => LeadsBack.search)
        fun _ _ => LeadsBack.search)
      intro _ t'' ht''
      exact ht''

theorem settles_of_onlyPivoted {t' : Tableau α} (hsound : t.IsSound) (hsnapshot : t.snapshot = none)
    (ht' : OnlyPivoted allowed t t') : Settles allowed t t' := by
  have hsound' := hsound.of_sameFrame ht'.1 ht'.2
  have hdiscard : t'.discardSearch = t' :=
    discardSearch_eq_self (ht'.1.snapshot.trans hsnapshot)
  refine ⟨ht'.1.precision, hsound', ?_, ?_, ?_, ?_⟩
  · rw [hdiscard]
    exact hsound'
  · rw [hdiscard]
    exact ht'.1.pool
  · intro index
    rw [hdiscard, traits?, traits?, ht'.1.lookup?]
  · rw [hdiscard]
    exact ht'.2

theorem settles_of_search {root t' : Tableau α} (hsound : t.IsSound)
    (hroot : OnlyPivoted allowed t root) (ht' : IsSearchFrom root t') :
    Settles allowed t t' := by
  have hsound' := hsound.of_sameFrame hroot.1 hroot.2
  refine ⟨ht'.precision.trans hroot.1.precision, ht'.sound, ht'.sound_discardSearch hsound',
    ht'.pool_discardSearch.trans hroot.1.pool, ?_, ?_⟩
  · intro index
    rw [traits?, traits?, ht'.lookup?_discardSearch hsound', hroot.1.lookup?]
  · rw [ht'.dictionary_discardSearch]
    exact hroot.2

theorem settles_of_leadsBack {root t' : Tableau α} (hsound : t.IsSound)
    (hsnapshot : t.snapshot = none) (hroot : OnlyPivoted allowed t root)
    (ht' : LeadsBack root t') : Settles allowed t t' := by
  cases ht' with
  | same frame dictionary =>
    refine settles_of_onlyPivoted hsound hsnapshot ⟨hroot.1.trans frame, ?_⟩
    rw [dictionary]
    exact hroot.2
  | search h => exact settles_of_search hsound hroot h

theorem Settles.of_sameView {t' t'' : Tableau α} (h : Settles allowed t t')
    (hsame : SameView Variable.traits t' t'') : Settles allowed t t'' := by
  have hroot := hsame.discardSearch
  refine ⟨hsame.precision.trans h.precision, hsame.isSound h.sound, hroot.isSound h.root_sound,
    hroot.pool.trans h.root_pool, fun index => (hroot.view_eq index).trans (h.root_traits index),
    ?_⟩
  rw [hroot.dictionary]
  exact h.root_pivots

def readied (t : Tableau α) (space : SearchSpace α) : Tableau α :=
  { t.discardSearch with
    checksCycles := space.options.stopsOnCycles
    isIntegral := false
    optimaReached := 0
    nodesExplored := 0 }

/-- A solve of a model without integer variables is a run of the simplex method. -/
theorem solve_of_no_integers (hintegers : space.integers = []) (effort : Effort)
    (t : Tableau α) :
    solve space effort t =
      match simplex effort (t.readied space) with
      | .ok _ t' =>
        .ok ((t'.updateValues space.indices).solution space []) (t'.updateValues space.indices)
      | .error fault t' => .error fault t' := by
  have hempty : space.integers.isEmpty = true := by
    rw [hintegers]
    rfl
  have hsolve : solve space effort t =
      (do
        simplex effort
        modify fun t => t.updateValues space.indices
        pure ((← get).solution space []) : Action α (Solution α)) (t.readied space) := by
    unfold solve
    rw [hempty]
    rfl
  rw [hsolve]
  cases hsimplex : simplex effort (t.readied space) with
  | ok result t' => exact bind_of_ok hsimplex
  | error fault t' => exact bind_of_error hsimplex

/-- A solve of a model with integer variables is a search. -/
theorem solve_of_integers (hempty : space.integers.isEmpty = false) (effort : Effort)
    (t : Tableau α) :
    solve space effort t =
      (do
        let kept ← branchAndCut space effort
        modify fun t => t.updateValues space.indices
        pure ((← get).solution space kept) : Action α (Solution α)) (t.readied space) := by
  unfold solve
  rw [hempty]
  rfl

/-- Whatever a solve does and however it ends, it leads back to the tableau that its
first relaxation left behind, apart from the values of variables. -/
theorem solve_leadsBack (hsound : t.discardSearch.IsSound)
    (hintegers : ∀ index ∈ space.integers, t.discardSearch.dictionary.Mentions index)
    (effort : Effort) :
    ∃ t', LeadsBack ((t.readied space).firstNode space effort) t' ∧
      SameView Variable.traits t' (finalState (solve space effort t)) := by
  have hready : (t.readied space).IsSound := hsound.of_eq rfl rfl rfl
  cases hempty : space.integers.isEmpty with
  | true =>
    have hfirst : (t.readied space).firstNode space effort =
        finalState (simplex effort (t.readied space)) := by
      rw [firstNode, if_pos hempty]
    rw [hfirst, solve_of_no_integers (List.isEmpty_iff.1 hempty)]
    refine ⟨_, .same (SameFrame.refl _) rfl, ?_⟩
    cases simplex effort (t.readied space) with
    | ok result t' => exact sameView_updateValues t' space.indices
    | error fault t' => exact SameView.refl t'
  | false =>
    rw [solve_of_integers hempty]
    have hback := branchAndCut_leadsBack hready rfl hempty hintegers effort
    cases houtcome : branchAndCut space effort (t.readied space) with
    | ok kept t' =>
      rw [houtcome] at hback
      rw [bind_of_ok houtcome]
      exact ⟨t', hback, sameView_updateValues t' space.indices⟩
    | error fault t' =>
      rw [houtcome] at hback
      rw [bind_of_error houtcome]
      exact ⟨t', hback, SameView.refl t'⟩

/-- The size of the rows that a solve leaves behind: one more for every rounding cut made
at the first relaxation. -/
theorem size_discardSearch_solve (hsound : t.discardSearch.IsSound)
    (hintegers : ∀ index ∈ space.integers, t.discardSearch.dictionary.Mentions index)
    (effort : Effort) :
    (finalState (solve space effort t)).discardSearch.dictionary.height =
        t.discardSearch.dictionary.height + (t.readied space).firstCuts space effort ∧
      (finalState (solve space effort t)).discardSearch.dictionary.width =
        t.discardSearch.dictionary.width := by
  have hready : (t.readied space).IsSound := hsound.of_eq rfl rfl rfl
  have hgrown := isGrownFrom_firstNode space effort hready rfl
  obtain ⟨t', hback, hsame⟩ := solve_leadsBack hsound hintegers effort
  have hdictionary : (finalState (solve space effort t)).discardSearch.dictionary =
      ((t.readied space).firstNode space effort).dictionary := by
    rw [hsame.discardSearch.dictionary]
    cases hback with
    | same frame dictionary =>
      rw [discardSearch_eq_self (frame.snapshot.trans hgrown.snapshot), dictionary]
    | search h => exact h.dictionary_discardSearch
  rw [hdictionary]
  exact ⟨height_firstNode rfl effort, hgrown.width⟩

/-- Whatever a solve does and however it ends, without rounding cuts at its first
relaxation the rows of the model are those after the pivots of that relaxation. -/
theorem solve_settles (hsound : t.discardSearch.IsSound)
    (hintegers : ∀ index ∈ space.integers, t.discardSearch.dictionary.Mentions index)
    (effort : Effort) (hcuts : (t.readied space).firstCuts space effort = 0)
    (hpivots : ∀ event ∈ simplexPivots effort (t.readied space),
      allowed event.before.dictionary event.row event.column) :
    Settles allowed t.discardSearch (finalState (solve space effort t)) := by
  have hready : (t.readied space).IsSound := hsound.of_eq rfl rfl rfl
  obtain ⟨t', hback, hsame⟩ := solve_leadsBack hsound hintegers effort
  have hsettles := settles_of_leadsBack hready rfl
    (onlyPivoted_firstNode rfl effort hcuts hpivots) hback
  have hview := hsettles.of_sameView hsame
  exact ⟨hview.precision, hview.sound, hview.root_sound, hview.root_pool, hview.root_traits,
    hview.root_pivots⟩

end Roots

end Tableau

end MixedInteger
