import MixedInteger.Proofs.Rollback
import MixedInteger.Proofs.SearchNodes

/-!
# The solutions that a search accepts

Of its best solution a search remembers the cuts of the branch only, and solves that branch
once more when it ends.  `incumbents` lists the solutions that a search accepts on its way.
All that it remembers and keeps can be read off the list: the kept solutions are the accepted
ones in order, each of them beats the one before it, and the last one is the answer, because
its branch is solved again from the same state.  The statements hold for every kind of scalar
and however a search stops.
-/

namespace MixedInteger

/-- An integral solution that became the best so far: its branch, and the tableau that
solved it. -/
structure Accepted (α : Type) where
  branch : Branch α
  solved : Tableau α

namespace Accepted

variable {α : Type} [Scalar α]

def incumbent (accepted : Accepted α) : Incumbent α :=
  ⟨accepted.solved.objectiveValue, accepted.solved.secondaryValues, accepted.branch⟩

def kept (space : SearchSpace α) (accepted : Accepted α) : KeptSolution α :=
  ⟨space.reported accepted.solved.objectiveValue, accepted.solved.basicSolution⟩

/-- A later solution improves on an earlier one by the rule of the search. -/
def IsBeatenBy (earlier later : Accepted α) : Prop :=
  earlier.incumbent.isBeatenBy later.solved.objectiveValue later.solved.secondaryValues = true

end Accepted

namespace Tableau

variable {α : Type} [Scalar α]

/-- The solution that a solved branch contributes, if it improves on the best so far. -/
def acceptedAt (space : SearchSpace α) (search : Search α) (branch : Branch α) (t : Tableau α) :
    List (Accepted α) :=
  if t.isFeasible && t.isBounded && !search.isFathomed t.objectiveValue t.secondaryValues &&
      t.isIntegralOn space.integers then [⟨branch, t⟩]
  else []

def incumbents (space : SearchSpace α) (effort : Effort) :
    Nat → Search α → Tableau α → List (Accepted α)
  | 0, _, _ => []
  | budget + 1, search, t =>
    match search.branches with
    | [] => []
    | branch :: branches =>
      let search := { search with branches := branches }
      if search.isTimedOut space effort || search.isCloseEnough space t.rootEvaluation then []
      else if branch.bound.any search.isWorse then incumbents space effort budget search t
      else
        let search := { search with nodes := search.nodes + 1 }
        match solveBranch space effort branch.cuts t with
        | .error _ _ => []
        | .ok _ solved =>
          acceptedAt space search branch solved ++
            match visitNode space search branch solved with
            | .ok (.continue search) t => incumbents space effort budget search t
            | _ => []

/-! ## Later nodes -/

/-- A solution of a search that returns to `root`: its branch was solved from a state of the
search and has an optimum. -/
structure IsAttainedFrom (root : Tableau α) (space : SearchSpace α) (effort : Effort)
    (accepted : Accepted α) : Prop where
  feasible : accepted.solved.isFeasible = true
  bounded : accepted.solved.isBounded = true
  attained : ∃ before, ReturnsTo root before ∧
    solveBranch space effort accepted.branch.cuts before = .ok () accepted.solved

/-- What a search remembers of the solutions it has accepted. -/
structure Chronicle (root : Tableau α) (space : SearchSpace α) (effort : Effort)
    (past : List (Accepted α)) (search : Search α) : Prop where
  kept_eq : space.options.keepsSolutions = true → search.kept = past.map (Accepted.kept space)
  incumbent_eq : search.incumbent = past.getLast?.map Accepted.incumbent
  attained : ∀ accepted ∈ past, IsAttainedFrom root space effort accepted
  improves : past.IsChain Accepted.IsBeatenBy

section Chronicles

variable {root t : Tableau α} {space : SearchSpace α} {effort : Effort} {search : Search α}
  {branch : Branch α} {past : List (Accepted α)}

/-- Open branches and the number of nodes play no part. -/
theorem Chronicle.of_same (h : Chronicle root space effort past search) {search' : Search α}
    (hkept : search'.kept = search.kept) (hincumbent : search'.incumbent = search.incumbent) :
    Chronicle root space effort past search' :=
  ⟨fun hkeeps => hkept.trans (h.kept_eq hkeeps), hincumbent.trans h.incumbent_eq, h.attained,
    h.improves⟩

/-- A solution that is not fathomed beats the last one. -/
theorem Chronicle.accept (h : Chronicle root space effort past search)
    (hattained : IsAttainedFrom root space effort ⟨branch, t⟩)
    (hfathomed : search.isFathomed t.objectiveValue t.secondaryValues = false) :
    Chronicle root space effort (past ++ [⟨branch, t⟩])
      { search with
        kept := keptWith space search t
        incumbent := some ⟨t.objectiveValue, t.secondaryValues, branch⟩ } := by
  refine ⟨?_, ?_, ?_, ?_⟩
  · intro hkeeps
    change keptWith space search t = _
    rw [keptWith, if_pos hkeeps, h.kept_eq hkeeps, List.map_append]
    rfl
  · rw [List.getLast?_concat]
    rfl
  · intro accepted haccepted
    rcases List.mem_append.1 haccepted with hpast | hnew
    · exact h.attained accepted hpast
    · rw [List.mem_singleton.1 hnew]
      exact hattained
  · refine List.isChain_append.2 ⟨h.improves, .singleton _, ?_⟩
    intro last hlast new hnew
    rw [List.head?_cons, Option.mem_some] at hnew
    have hbeats : last.incumbent.isBeatenBy t.objectiveValue t.secondaryValues = true := by
      rw [Search.isFathomed, Bool.or_eq_false_iff, h.incumbent_eq, Option.mem_def.1 hlast]
        at hfathomed
      simpa using hfathomed.2
    rw [← hnew]
    exact hbeats

/-- What a later node does to the chronicle. -/
theorem visitNode_chronicle (h : Chronicle root space effort past search)
    (hlater : search.nodes ≠ 1) (ht : ReturnsTo root t)
    (hattained : ∃ before, ReturnsTo root before ∧
      solveBranch space effort branch.cuts before = .ok () t) :
    Ends (visitNode space search branch t)
      (fun outcome t' => ReturnsTo root t' ∧ match outcome with
        | .continue search' =>
          Chronicle root space effort (past ++ acceptedAt space search branch t) search' ∧
            search'.nodes = search.nodes
        | .final _ => t'.isBounded = false)
      fun _ => ReturnsTo root := by
  have hnodes : (search.nodes == 1) = false := by simpa using hlater
  rw [visitNode_eq, acceptedAt]
  split
  · next hinfeasible =>
    rw [if_neg (by simp_all), List.append_nil]
    exact ⟨ht, h, rfl⟩
  next hfeasible =>
  split
  · next hunbounded => exact ⟨ht.of_same rfl rfl rfl rfl rfl, by simpa using hunbounded⟩
  next hbounded =>
  split
  · next hfathomed =>
    rw [if_neg (by simp_all), List.append_nil]
    exact ⟨ht, h, rfl⟩
  next hfathomed =>
  split
  · next hintegral =>
    rw [if_pos (by simp_all), acceptNode_eq, hnodes]
    refine ⟨ht.of_same rfl rfl rfl rfl rfl, h.accept ?_ (by simpa using hfathomed), rfl⟩
    exact ⟨by simpa using hfeasible, by simpa using hbounded, hattained⟩
  · next hfractional =>
    rw [if_neg (by simp_all), List.append_nil, splitNode_eq, hnodes]
    cases hfound : t.branchingVariable? space.options.branching space.integers with
    | none =>
      simp only [Bool.false_eq_true, if_false, hfound]
      exact ht
    | some found =>
      simp only [Bool.false_eq_true, if_false, hfound]
      exact ⟨ht, h.of_same rfl rfl, rfl⟩

/-- The loop over later nodes adds the solutions it accepts to the chronicle, or finds the
model unbounded. -/
theorem explore_chronicle (hroot : root.HasClearPool) (budget : Nat) (hnodes : 0 < search.nodes)
    (h : Chronicle root space effort past search) (ht : ReturnsTo root t) :
    Ends (explore space effort budget search t)
      (fun outcome t' => ReturnsTo root t' ∧ match outcome with
        | .continue search' => Chronicle root space effort
            (past ++ incumbents space effort budget search t) search'
        | .final _ => t'.isBounded = false)
      fun _ => ReturnsTo root := by
  induction budget generalizing search t past with
  | zero => exact ht
  | succ budget ih =>
    rw [explore_succ, incumbents]
    cases hbranches : search.branches with
    | nil =>
      simp only [List.append_nil]
      exact ⟨ht, h⟩
    | cons branch branches =>
      simp only
      split
      · rw [List.append_nil]
        exact ⟨ht, h.of_same rfl rfl⟩
      split
      · exact ih hnodes (h.of_same rfl rfl) ht
      have hsolved := ht.solveBranch hroot space effort branch.cuts
      cases hok : solveBranch space effort branch.cuts t with
      | error fault t' =>
        rw [hok] at hsolved
        rw [bind_of_error hok]
        exact hsolved
      | ok result t' =>
        rw [hok] at hsolved
        change ReturnsTo root t' at hsolved
        rw [bind_of_ok hok]
        have hlater : search.nodes + 1 ≠ 1 := by omega
        have hpopped : Chronicle root space effort past
            { search with branches := branches, nodes := search.nodes + 1 } := h.of_same rfl rfl
        have hvisit := visitNode_chronicle hpopped hlater hsolved ⟨t, ht, hok⟩
        cases hvisited : visitNode space
            { search with branches := branches, nodes := search.nodes + 1 } branch t' with
        | error fault t'' =>
          rw [hvisited] at hvisit
          rw [bind_of_error hvisited]
          exact hvisit
        | ok outcome t'' =>
          rw [hvisited] at hvisit
          rw [bind_of_ok hvisited]
          cases outcome with
          | final search' => exact hvisit
          | «continue» search' =>
            obtain ⟨ht'', hchronicle, hsame⟩ := hvisit
            simp only [hvisited, ← List.append_assoc]
            exact ih (by rw [hsame]; exact Nat.succ_pos _) hchronicle ht''

/-- The chronicle of a search that has not accepted anything. -/
theorem chronicle_nil (hkept : search.kept = []) (hincumbent : search.incumbent = none) :
    Chronicle root space effort [] search :=
  ⟨fun _ => hkept, hincumbent, fun _ hmem => absurd hmem List.not_mem_nil, .nil⟩

end Chronicles

/-! ## Whole searches -/

/-- Leaving the search leads from `t` to a tableau that knows what `base` knew: there is no
snapshot, or it is that of such a tableau. -/
inductive StemsFrom (base t : Tableau α) : Prop
  | outside (known : Retains base t) (snapshot : t.snapshot = none)
  | search {root : Tableau α} (known : Retains base root) (returns : ReturnsTo root t)

/-- The tableau at the end of a search has the answer of the last solution that was
accepted, and each of these beats the one before it. -/
structure Reports (space : SearchSpace α) (accepted : List (Accepted α))
    (kept : List (KeptSolution α)) (t : Tableau α) : Prop where
  kept_eq : space.options.keepsSolutions = true → kept = accepted.map (Accepted.kept space)
  improves : accepted.IsChain Accepted.IsBeatenBy
  answer : ∃ last ∈ accepted.getLast?, SameAnswer last.solved t ∧
    last.solved.evaluation = .finite last.solved.objectiveValue

/-- What is known when the loop over branches has ended. -/
inductive Completes (base : Tableau α) (space : SearchSpace α) (effort : Effort)
    (accepted : List (Accepted α)) : NodeOutcome α → Tableau α → Prop
  | final {search : Search α} {t : Tableau α} (stems : StemsFrom base t)
      (reports : t.isBounded = true → Reports space accepted search.kept t) :
      Completes base space effort accepted (.final search) t
  | nothing {search : Search α} {t : Tableau α} (stems : StemsFrom base t)
      (incumbent : search.incumbent = none) :
      Completes base space effort accepted (.continue search) t
  | search {search : Search α} {root t : Tableau α} (known : Retains base root)
      (returns : ReturnsTo root t) (chronicle : Chronicle root space effort accepted search) :
      Completes base space effort accepted (.continue search) t

section Searches

variable {base root t : Tableau α} {space : SearchSpace α} {effort : Effort}

omit [Scalar α] in
theorem StemsFrom.retains (h : StemsFrom base t) : Retains base t.discardSearch := by
  cases h with
  | outside known snapshot =>
    rw [discardSearch_eq_self snapshot]
    exact known
  | search known returns => exact known.trans (returns.retains_discardSearch known.pool)

omit [Scalar α] in
theorem StemsFrom.restore (h : StemsFrom base t) : StemsFrom base t.restore := by
  cases h with
  | outside known snapshot =>
    rw [restore_eq_self snapshot]
    exact .outside known snapshot
  | search known returns => exact .search known (returns.restore known.pool.hasClearPool)

omit [Scalar α] in
theorem StemsFrom.of_base {base' : Tableau α} (h : StemsFrom base t) (hbase : Retains base' base) :
    StemsFrom base' t := by
  cases h with
  | outside known snapshot => exact .outside (hbase.trans known) snapshot
  | search known returns => exact .search (hbase.trans known) returns

omit [Scalar α] in
/-- The flags of a tableau play no part. -/
theorem StemsFrom.of_same {t' : Tableau α} (h : StemsFrom base t) (hframe : SameFrame t t') :
    StemsFrom base t' := by
  cases h with
  | outside known snapshot =>
    exact .outside (known.trans (.of_eq known.pool hframe.pool hframe.arena))
      (hframe.snapshot.trans snapshot)
  | search known returns =>
    exact .search known (returns.of_same hframe.precision hframe.checksCycles hframe.pool
      hframe.arena hframe.snapshot)

/-- The branch of the best solution, solved again from any state of the search, gives the
answer that was accepted. -/
theorem Chronicle.solveBranch {accepted : List (Accepted α)} {search : Search α}
    (hroot : root.HasClearPool) (h : Chronicle root space effort accepted search)
    (ht : ReturnsTo root t) {incumbent : Incumbent α}
    (hincumbent : search.incumbent = some incumbent) :
    ∃ t', Tableau.solveBranch space effort incumbent.branch.cuts t = .ok () t' ∧
      ReturnsTo root t' ∧ Reports space accepted search.kept t' := by
  rw [h.incumbent_eq] at hincumbent
  obtain ⟨last, hlast, rfl⟩ := Option.map_eq_some_iff.1 hincumbent
  have hattained := h.attained last (List.mem_of_getLast? hlast)
  obtain ⟨before, hbefore, hok⟩ := hattained.attained
  have halike := solveBranch_alike space effort last.branch.cuts
    (ReturnsTo.agree_restore hroot hbefore ht)
  obtain ⟨t', ht', hsame⟩ := halike.exists_ok hok
  have hreturns := ht.solveBranch hroot space effort last.branch.cuts
  rw [ht'] at hreturns
  have hevaluated := solveBranch_evaluated space effort last.branch.cuts before
  rw [hok] at hevaluated
  exact ⟨t', ht', hreturns, h.kept_eq, h.improves, last, hlast, hsame,
    hevaluated hattained.feasible hattained.bounded⟩

theorem incumbents_start (budget : Nat) (t : Tableau α) :
    incumbents space effort (budget + 1) Search.start t =
      match Tableau.solveBranch space effort [] t with
      | .error _ _ => []
      | .ok _ root =>
        acceptedAt space atRoot rootBranch root ++
          match visitNode space atRoot rootBranch root with
          | .ok (.continue search) t => incumbents space effort budget search t
          | _ => [] := by
  rw [incumbents]
  rfl

/-- A root that is infeasible is the only node. -/
theorem explore_atRoot_completes (budget : Nat) (hroot : Retains base root)
    (hsnapshot : root.snapshot = none) (accepted : List (Accepted α)) :
    Ends (explore space effort budget atRoot root) (Completes base space effort accepted)
      fun _ => StemsFrom base := by
  have hnil : explore space effort budget atRoot root =
        .error (Cause.outOfSteps : Fault) root ∨
      explore space effort budget atRoot root = .ok (.continue atRoot) root :=
    explore_nil effort budget rfl root
  rcases hnil with hnil | hnil
  · rw [hnil]
    exact .outside hroot hsnapshot
  · rw [hnil]
    exact .nothing (.outside hroot hsnapshot) rfl

/-- An integral root is the answer. -/
theorem reports_root (hevaluated : root.evaluation = .finite root.objectiveValue)
    {t : Tableau α} (hsame : SameAnswer root t) :
    Reports space [⟨rootBranch, root⟩] (keptWith space atRoot root) t := by
  refine ⟨?_, .singleton _, ⟨rootBranch, root⟩, rfl, hsame, hevaluated⟩
  intro hkeeps
  rw [keptWith, if_pos hkeeps]
  rfl

/-- From the first node on: it is the last one, or the search goes on from a snapshot of
it. -/
theorem visitRoot_completes (budget : Nat) (hroot : Retains base root)
    (hsnapshot : root.snapshot = none)
    (hevaluated : root.isFeasible = true → root.isBounded = true →
      root.evaluation = .finite root.objectiveValue) :
    Ends ((do
        match ← visitNode space atRoot rootBranch with
        | .continue search => explore space effort budget search
        | .final search => pure (.final search) : Action α (NodeOutcome α)) root)
      (Completes base space effort (acceptedAt space atRoot rootBranch root ++
        match visitNode space atRoot rootBranch root with
        | .ok (.continue search) t => incumbents space effort budget search t
        | _ => []))
      fun _ => StemsFrom base := by
  have hstems : StemsFrom base root := .outside hroot hsnapshot
  have hfirst : ((atRoot : Search α).nodes == 1) = true := rfl
  have hvisit := (visitNode_eq atRoot rootBranch root : visitNode space atRoot rootBranch root = _)
  split at hvisit
  · rw [bind_of_ok hvisit]
    exact explore_atRoot_completes budget hroot hsnapshot _
  next hfeasible =>
  split at hvisit
  · next hunbounded =>
    rw [bind_of_ok hvisit]
    refine .final (hstems.of_same ⟨rfl, rfl, rfl, rfl, rfl⟩) ?_
    intro hbounded
    exact absurd hbounded (by simpa using hunbounded)
  next hbounded =>
  split at hvisit
  · rw [bind_of_ok hvisit]
    exact explore_atRoot_completes budget hroot hsnapshot _
  next hfathomed =>
  split at hvisit
  · next hintegral =>
    have haccepted : acceptedAt space atRoot rootBranch root = [⟨rootBranch, root⟩] := by
      rw [acceptedAt, if_pos (by simp_all)]
    simp only [acceptNode_eq, hfirst, if_true] at hvisit
    rw [bind_of_ok hvisit, hvisit, haccepted]
    refine .final (hstems.of_same ⟨rfl, rfl, rfl, rfl, rfl⟩) fun _ => ?_
    apply reports_root (hevaluated (by simpa using hfeasible) (by simpa using hbounded))
    exact ⟨⟨⟨⟨rfl, rfl, rfl, rfl, rfl⟩, rfl⟩, rfl, rfl⟩, rfl, fun _ => rfl⟩
  next hfractional =>
  have haccepted : acceptedAt space atRoot rootBranch root = [] := by
    rw [acceptedAt, if_neg (by simp_all)]
  simp only [splitNode_eq, hfirst, if_true] at hvisit
  cases hfound : root.save.branchingVariable? space.options.branching space.integers with
  | none =>
    rw [hfound] at hvisit
    rw [bind_of_error hvisit]
    exact .search hroot (ReturnsTo.save root)
  | some found =>
    rw [hfound] at hvisit
    rw [bind_of_ok hvisit, hvisit, haccepted]
    have hnothing : Chronicle root space effort [] (Search.split atRoot
        space.options.nodeSelection rootBranch root.save.objectiveValue found.1 found.2) :=
      chronicle_nil rfl rfl
    apply Ends.mono (explore_chronicle hroot.pool.hasClearPool budget Nat.one_pos hnothing
      (ReturnsTo.save root))
    · rintro outcome t' ⟨hreturns, houtcome⟩
      cases outcome with
      | «continue» search => exact .search hroot hreturns houtcome
      | final search =>
        exact .final (.search hroot hreturns) fun hbounded => by simp [houtcome] at hbounded
    · intro _ t' hreturns
      exact .search hroot hreturns

theorem explore_completes (hpool : t.HasSoundPool) (hsnapshot : t.snapshot = none)
    (budget : Nat) :
    Ends (explore space effort budget Search.start t)
      (Completes t space effort (incumbents space effort budget Search.start t))
      fun _ => StemsFrom t := by
  cases budget with
  | zero => exact .outside (.of_eq hpool rfl rfl) hsnapshot
  | succ budget =>
    obtain ⟨hroot, hoff⟩ := retains_solveRoot hpool hsnapshot space effort
    have hevaluated := solveBranch_evaluated space effort [] t
    rw [explore_start, incumbents_start]
    cases hok : Tableau.solveBranch space effort [] t with
    | error fault root =>
      rw [hok] at hroot hoff
      rw [bind_of_error hok]
      exact .outside hroot hoff
    | ok result root =>
      rw [hok] at hroot hoff hevaluated
      rw [bind_of_ok hok]
      exact visitRoot_completes budget hroot hoff hevaluated

/-- The end of a search: its best solution is reached again, if there is one. -/
theorem finishSearch_reports {accepted : List (Accepted α)} {search : Search α}
    (h : Completes base space effort accepted (.continue search) t) :
    ∃ t', finishSearch space effort search t = .ok () t' ∧ StemsFrom base t' ∧
      (t'.isFeasible = true → Reports space accepted search.kept t') := by
  have hnothing (hstems : StemsFrom base t) (hincumbent : search.incumbent = none) :
      ∃ t', finishSearch space effort search t = .ok () t' ∧ StemsFrom base t' ∧
        (t'.isFeasible = true → Reports space accepted search.kept t') :=
    ⟨_, finishSearch_of_none effort hincumbent t,
      hstems.restore.of_same ⟨rfl, rfl, rfl, rfl, rfl⟩, fun hfeasible => nomatch hfeasible⟩
  cases h with
  | nothing stems incumbent => exact hnothing stems incumbent
  | search known returns chronicle =>
    cases hincumbent : search.incumbent with
    | none => exact hnothing (.search known returns) hincumbent
    | some incumbent =>
      obtain ⟨t', hok, hreturns, hreports⟩ :=
        chronicle.solveBranch known.pool.hasClearPool returns hincumbent
      refine ⟨_, finishSearch_of_some hincumbent hok,
        .search known (hreturns.of_same rfl rfl rfl rfl rfl), fun _ => ?_⟩
      obtain ⟨last, hlast, hsame, hevaluated⟩ := hreports.answer
      exact ⟨hreports.kept_eq, hreports.improves, last, hlast,
        ⟨⟨⟨⟨hsame.precision, hsame.pool, hsame.arena, hsame.snapshot, hsame.checksCycles⟩,
          hsame.dictionary⟩, hsame.isFeasible, hsame.isBounded⟩, hsame.unboundedIndex,
          hsame.evaluation⟩, hevaluated⟩

/-- A search that ends with an optimum reports the solutions it accepted.  However it ends,
leaving it brings back all variables that were known before. -/
theorem branchAndCut_reports (hpool : t.HasSoundPool) (hsnapshot : t.snapshot = none)
    (space : SearchSpace α) (effort : Effort) :
    Ends (branchAndCut space effort t)
      (fun kept t' => StemsFrom t t' ∧
        (t'.isFeasible = true → t'.isBounded = true →
          Reports space (incumbents space effort effort.branches Search.start t) kept t'))
      fun _ => StemsFrom t := by
  unfold branchAndCut
  apply Ends.bind (explore_completes hpool hsnapshot effort.branches)
  intro outcome t' houtcome
  cases outcome with
  | final search =>
    cases houtcome with
    | final stems reports => exact ⟨stems, fun _ => reports⟩
  | «continue» search =>
    obtain ⟨t'', hfinish, hstems, hreports⟩ := finishSearch_reports houtcome
    change Ends ((finishSearch space effort search >>= fun _ => pure search.kept) t') _ _
    rw [bind_of_ok hfinish]
    exact ⟨hstems, fun hfeasible _ => hreports hfeasible⟩

/-! ## Whole solves -/

/-- Notes the value of a row, unless its variable is a slack or not known. -/
def noteValue (values : OrderedMap String α) (value : α) :
    Option (Variable α) → OrderedMap String α
  | some data => if data.isSlack then values else values.insert data.name value
  | none => values

theorem noteValue_traits (values : OrderedMap String α) (value : α)
    (found : Option (Variable α)) :
    noteValue values value (found.map Variable.traits) = noteValue values value found := by
  cases found <;> rfl

theorem basicSolution_eq (t : Tableau α) :
    t.basicSolution = t.dictionary.rows.foldl (fun values r =>
      noteValue values (t.round (t.dictionary.entry r 0))
        ((t.dictionary.basicAt r).bind t.lookup?)) [] :=
  rfl

/-- The values of a solution do not depend on those that were written back before. -/
theorem SameView.basicSolution {t' : Tableau α} (h : SameView Variable.traits t t') :
    t'.basicSolution = t.basicSolution := by
  have htraits (found : Option Nat) : (found.bind t'.lookup?).map Variable.traits =
      (found.bind t.lookup?).map Variable.traits := by
    cases found with
    | none => rfl
    | some index => exact h.view_eq index
  rw [basicSolution_eq, basicSolution_eq, h.dictionary]
  congr 1
  funext values r
  rw [← noteValue_traits, htraits, noteValue_traits, Tableau.round, Tableau.round, h.precision]

theorem Agree.basicSolution {s : Tableau α} (h : Agree t s) :
    s.basicSolution = t.basicSolution := by
  have hlookup : s.lookup? = t.lookup? := funext h.lookup?
  simp only [Tableau.basicSolution, h.dictionary, hlookup, Tableau.round, h.precision]

/-- However a solve ends, leaving its search brings back all variables that were known
before it, apart from their values. -/
theorem solve_stems (hpool : t.discardSearch.HasSoundPool) (space : SearchSpace α)
    (effort : Effort) :
    ∃ t', StemsFrom t.discardSearch t' ∧
      SameView Variable.traits t' (finalState (solve space effort t)) := by
  have hready : (t.readied space).HasSoundPool := hpool.of_eq rfl rfl
  have hknown : Retains t.discardSearch (t.readied space) := .of_eq hpool rfl rfl
  cases hempty : space.integers.isEmpty with
  | true =>
    have hsimplex := hknown.simplex effort
    have hsnapshot := snapshot_simplex effort (t.readied space)
    rw [solve_of_no_integers (List.isEmpty_iff.1 hempty)]
    refine ⟨_, .outside hsimplex hsnapshot, ?_⟩
    cases simplex effort (t.readied space) with
    | ok result t' => exact sameView_updateValues t' space.indices
    | error fault t' => exact SameView.refl t'
  | false =>
    have hsearch := branchAndCut_reports hready rfl space effort
    rw [solve_of_integers hempty]
    cases houtcome : branchAndCut space effort (t.readied space) with
    | ok kept t' =>
      rw [houtcome] at hsearch
      rw [bind_of_ok houtcome]
      exact ⟨t', hsearch.1.of_base hknown, sameView_updateValues t' space.indices⟩
    | error fault t' =>
      rw [houtcome] at hsearch
      rw [bind_of_error houtcome]
      exact ⟨t', hsearch.of_base hknown, SameView.refl t'⟩

/-- A solution with an optimum is the last one that its search accepted, each of these beats
the one before it, and all of them are kept in order if that was asked for. -/
theorem solve_reports (hpool : t.discardSearch.HasSoundPool)
    (hempty : space.integers.isEmpty = false) {solution : Solution α} {t' : Tableau α}
    (hsolve : solve space effort t = .ok solution t') (hfeasible : solution.isFeasible = true)
    (hbounded : solution.isBounded = true) :
    let accepted := incumbents space effort effort.branches Search.start (t.readied space)
    (space.options.keepsSolutions = true →
        solution.kept = accepted.map (Accepted.kept space)) ∧
      accepted.IsChain Accepted.IsBeatenBy ∧
      ∃ last ∈ accepted.getLast?, solution.evaluation = .finite (last.kept space).result ∧
        solution.values = (last.kept space).values := by
  have hsearch := branchAndCut_reports (hpool.of_eq rfl rfl : (t.readied space).HasSoundPool) rfl
    space effort
  rw [solve_of_integers hempty] at hsolve
  cases houtcome : branchAndCut space effort (t.readied space) with
  | error fault final =>
    rw [bind_of_error houtcome] at hsolve
    exact absurd hsolve (by simp)
  | ok kept final =>
    rw [houtcome] at hsearch
    rw [bind_of_ok houtcome] at hsolve
    have hsolution : (final.updateValues space.indices).solution space kept = solution := by
      injection hsolve
    have hupdate := updateValues_eq final space.indices
    have hfeasible' : final.isFeasible = true := by
      rw [← hsolution, Tableau.solution, hupdate] at hfeasible
      exact hfeasible
    have hbounded' : final.isBounded = true := by
      rw [← hsolution, Tableau.solution, hupdate] at hbounded
      exact hbounded
    obtain ⟨hkept, himproves, last, hlast, hsame, hevaluated⟩ := hsearch.2 hfeasible' hbounded'
    have hagree : Agree last.solved final := hsame.toAgree
    have hfinal : final.evaluation = .finite last.solved.objectiveValue :=
      (hsame.evaluation (hsame.isFeasible.symm.trans hfeasible')).trans hevaluated
    refine ⟨?_, himproves, last, hlast, ?_, ?_⟩
    · intro hkeeps
      rw [← hsolution, ← hkept hkeeps, Tableau.solution, hempty]
      rfl
    · rw [← hsolution]
      change space.reportedExtended (final.updateValues space.indices).evaluation = _
      rw [hupdate, hfinal]
      rfl
    · rw [← hsolution]
      exact (sameView_updateValues final space.indices).basicSolution.trans hagree.basicSolution

end Searches

end Tableau

end MixedInteger
