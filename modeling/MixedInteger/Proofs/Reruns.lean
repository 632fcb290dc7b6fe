import MixedInteger.Proofs.SearchState

/-!
# Solving a branch again

A search returns to its best solution by solving the branch of that solution once more.
The second run ends as the first one, with the same dictionary and the same verdict or
with the same fault: all choices read the dictionary, the variables and the precision
only, and every state of a search returns to the same ones before a branch is solved.
-/

namespace MixedInteger.Tableau

variable {α : Type}

/-- Two tableaus that differ in their verdict and their record alone. -/
structure Agree (t s : Tableau α) : Prop extends SameFrame t s where
  dictionary : s.dictionary = t.dictionary

/-- Two tableaus that differ in their record alone. -/
structure SameVerdict (t s : Tableau α) : Prop extends Agree t s where
  isFeasible : s.isFeasible = t.isFeasible
  isBounded : s.isBounded = t.isBounded

/-- Two tableaus with the same answer.  Only what a solve counts along its way may
differ, and the evaluation of an infeasible tableau, which is left from before. -/
structure SameAnswer (t s : Tableau α) : Prop extends SameVerdict t s where
  unboundedIndex : s.unboundedIndex = t.unboundedIndex
  evaluation : t.isFeasible = true → s.evaluation = t.evaluation

/-- All states that return to one tableau return to the same. -/
theorem ReturnsTo.agree_restore {root t s : Tableau α} (hroot : root.HasClearPool)
    (ht : ReturnsTo root t) (hs : ReturnsTo root s) : Agree t.restore s.restore := by
  have ht' := ht.restore hroot
  have hs' := hs.restore hroot
  exact ⟨⟨hs'.precision.trans ht'.precision.symm, hs.pool_restore.trans ht.pool_restore.symm,
    (hs.arena_restore hroot).trans (ht.arena_restore hroot).symm,
    hs'.snapshot.trans ht'.snapshot.symm, hs'.checksCycles.trans ht'.checksCycles.symm⟩,
    hs.dictionary_restore.trans ht.dictionary_restore.symm⟩

section Steps

variable [Scalar α] {t t' s : Tableau α}

/-! ## Pivots -/

theorem Agree.pivot (h : Agree t s) (r c : Nat) : Agree (t.pivot r c) (s.pivot r c) :=
  ⟨⟨h.precision, h.pool, h.arena, h.snapshot, h.checksCycles⟩,
    congrArg (fun d => d.pivot r c) h.dictionary⟩

omit [Scalar α] in
theorem notePivot_alike (h : Agree t s) (phase : Phase) (history : PivotHistory) (r c : Nat) :
    Alike (fun t' s' => t' = t ∧ s' = s) (fun t' s' => t' = t ∧ s' = s)
      (notePivot phase history r c t) (notePivot phase history r c s) := by
  have hpivot : s.pivotAt r c = t.pivotAt r c := by
    rw [pivotAt, pivotAt, h.dictionary]
  unfold notePivot
  simp only [bind, EStateM.bind, run_get, h.checksCycles, hpivot]
  split
  · cases (history.push (t.pivotAt r c)).findCycle with
    | some cycle => exact ⟨rfl, rfl, rfl⟩
    | none => exact ⟨rfl, rfl, rfl⟩
  · exact ⟨rfl, rfl, rfl⟩

theorem phaseOneLoop_alike (budget : Nat) (history : PivotHistory) (h : Agree t s)
    (hbounded : s.isBounded = t.isBounded) (hindex : s.unboundedIndex = t.unboundedIndex) :
    Alike (fun t' s' => SameVerdict t' s' ∧ s'.unboundedIndex = t'.unboundedIndex) Agree
      (phaseOneLoop budget history t) (phaseOneLoop budget history s) := by
  induction budget generalizing history t s with
  | zero => exact ⟨rfl, h⟩
  | succ budget ih =>
    have hsame := h.phaseOneStep h.dictionary
    cases hstep : t.phaseOneStep with
    | feasible =>
      rw [phaseOneLoop_of_feasible hstep, phaseOneLoop_of_feasible (hsame.trans hstep)]
      exact ⟨rfl, ⟨⟨⟨h.precision, h.pool, h.arena, h.snapshot, h.checksCycles⟩, h.dictionary⟩,
        rfl, hbounded⟩, hindex⟩
    | infeasible =>
      rw [phaseOneLoop_of_infeasible hstep, phaseOneLoop_of_infeasible (hsame.trans hstep)]
      exact ⟨rfl, ⟨⟨⟨h.precision, h.pool, h.arena, h.snapshot, h.checksCycles⟩, h.dictionary⟩,
        rfl, hbounded⟩, hindex⟩
    | pivot r c =>
      have hnotes := notePivot_alike h .one history r c
      rw [phaseOneLoop_of_pivot hstep, phaseOneLoop_of_pivot (hsame.trans hstep)]
      cases hnote : notePivot .one history r c t with
      | ok history' t' =>
        obtain ⟨_, hnote', rfl, rfl⟩ := hnotes.exists_ok hnote
        rw [hnote']
        exact ih history' (h.pivot r c) hbounded hindex
      | error fault t' =>
        obtain ⟨_, hnote', rfl, rfl⟩ := hnotes.exists_error hnote
        rw [hnote']
        exact ⟨rfl, h⟩

theorem Agree.objectiveValue (h : Agree t s) : s.objectiveValue = t.objectiveValue := by
  rw [Tableau.objectiveValue, Tableau.objectiveValue, Tableau.round, Tableau.round, h.precision,
    h.dictionary]

theorem phaseTwoLoop_alike (budget : Nat) (history : PivotHistory) (h : SameVerdict t s)
    (hindex : s.unboundedIndex = t.unboundedIndex) :
    Alike SameAnswer Agree (phaseTwoLoop budget history t) (phaseTwoLoop budget history s) := by
  induction budget generalizing history t s with
  | zero => exact ⟨rfl, h.toAgree⟩
  | succ budget ih =>
    have hsame := h.phaseTwoStep h.dictionary
    have hagree : Agree t s := h.toAgree
    cases hstep : t.phaseTwoStep with
    | optimal =>
      rw [phaseTwoLoop_of_optimal hstep, phaseTwoLoop_of_optimal (hsame.trans hstep)]
      exact ⟨rfl, ⟨⟨⟨h.precision, h.pool, h.arena, h.snapshot, h.checksCycles⟩, h.dictionary⟩,
        h.isFeasible, h.isBounded⟩, hindex, fun _ => congrArg Extended.finite hagree.objectiveValue⟩
    | unbounded column =>
      rw [phaseTwoLoop_of_unbounded hstep, phaseTwoLoop_of_unbounded (hsame.trans hstep)]
      exact ⟨rfl, ⟨⟨⟨h.precision, h.pool, h.arena, h.snapshot, h.checksCycles⟩, h.dictionary⟩,
        h.isFeasible, rfl⟩, congrArg (fun d => d.nonBasicAt column) h.dictionary, fun _ => rfl⟩
    | pivot r c =>
      have hnotes := notePivot_alike hagree .two history r c
      rw [phaseTwoLoop_of_pivot hstep, phaseTwoLoop_of_pivot (hsame.trans hstep)]
      cases hnote : notePivot .two history r c t with
      | ok history' t' =>
        obtain ⟨_, hnote', rfl, rfl⟩ := hnotes.exists_ok hnote
        rw [hnote']
        exact ih history' ⟨hagree.pivot r c, h.isFeasible, h.isBounded⟩ hindex
      | error fault t' =>
        obtain ⟨_, hnote', rfl, rfl⟩ := hnotes.exists_error hnote
        rw [hnote']
        exact ⟨rfl, hagree⟩

theorem simplex_alike (effort : Effort) (h : Agree t s) :
    Alike SameAnswer Agree (simplex effort t) (simplex effort s) := by
  have hcleared : Agree t.cleared s.cleared :=
    ⟨⟨h.precision, h.pool, h.arena, h.snapshot, h.checksCycles⟩, h.dictionary⟩
  have hphases := phaseOneLoop_alike effort.pivots .empty hcleared rfl rfl
  rw [simplex_eq, simplex_eq]
  cases hphase : phaseOne effort t.cleared with
  | error fault start =>
    obtain ⟨start', hphase', hstart⟩ := hphases.exists_error hphase
    change phaseOne effort s.cleared = .error fault start' at hphase'
    rw [hphase']
    exact ⟨rfl, hstart⟩
  | ok result start =>
    obtain ⟨start', hphase', hstart, hindex⟩ := hphases.exists_ok hphase
    change phaseOne effort s.cleared = .ok () start' at hphase'
    simp only [hphase', hstart.isFeasible]
    split
    · exact phaseTwoLoop_alike effort.pivots .empty hstart hindex
    · next hinfeasible => exact ⟨rfl, hstart, hindex, fun hfeasible => absurd hfeasible hinfeasible⟩

/-! ## Cuts -/

theorem Agree.registerSlack (h : Agree t s) : Agree t.registerSlack.2 s.registerSlack.2 := by
  have hslack : s.pool.allocate = t.pool.allocate := congrArg IndexPool.allocate h.pool
  refine ⟨⟨h.precision, congrArg Prod.snd hslack, ?_, h.snapshot, h.checksCycles⟩, h.dictionary⟩
  simp only [Tableau.registerSlack, register, h.arena, hslack]

theorem Agree.pushCutRow (h : Agree t s) (row : Array α) :
    Agree (t.pushCutRow row) (s.pushCutRow row) := by
  have hslack : s.pool.allocate = t.pool.allocate := congrArg IndexPool.allocate h.pool
  have hframe := h.registerSlack.toSameFrame
  refine ⟨⟨hframe.precision, hframe.pool, hframe.arena, hframe.snapshot, hframe.checksCycles⟩, ?_⟩
  rw [pushCutRow_eq, pushCutRow_eq]
  simp only [modifyDictionary, register, h.dictionary, hslack]

theorem addCut_alike (cut : Cut α) (h : Agree t s) :
    Alike Agree Agree (addCut cut t) (addCut cut s) := by
  rw [addCut_run, addCut_run, h.dictionary]
  split
  · next row hrow => exact ⟨rfl, h.pushCutRow row⟩
  · exact ⟨rfl, h.registerSlack⟩

theorem addCuts_alike (cuts : List (Cut α)) (h : Agree t s) :
    Alike Agree Agree (addCuts cuts t) (addCuts cuts s) :=
  Alike.forM addCut (fun cut _ _ => addCut_alike cut) cuts h

omit [Scalar α] in
theorem Agree.isInteger (h : Agree t s) (index : Option Nat) :
    s.isInteger index = t.isInteger index := by
  have hlookup : s.lookup? = t.lookup? := funext h.lookup?
  rw [Tableau.isInteger, Tableau.isInteger, hlookup]

theorem Agree.fractionalPart? (h : Agree t s) (value : α) :
    s.fractionalPart? value = t.fractionalPart? value := by
  rw [Tableau.fractionalPart?, Tableau.fractionalPart?, h.precision]

theorem Agree.cutFraction? (h : Agree t s) (r : Nat) : s.cutFraction? r = t.cutFraction? r := by
  have hfree : s.dependsOnFree r = t.dependsOnFree r := by
    simp only [dependsOnFree, h.dictionary, h.isFree, h.precision]
  rw [Tableau.cutFraction?, Tableau.cutFraction?, hfree, h.dictionary, h.isInteger,
    h.fractionalPart?]

theorem Agree.addDerivedCut (h : Agree t s) {derive : Tableau α → Nat → α → Array α} {r : Nat}
    (hderive : ∀ fraction, derive s r fraction = derive t r fraction) :
    Agree (t.addDerivedCut derive r).1 (s.addDerivedCut derive r).1 ∧
      (s.addDerivedCut derive r).2 = (t.addDerivedCut derive r).2 := by
  unfold Tableau.addDerivedCut
  rw [h.cutFraction?]
  cases t.cutFraction? r with
  | none => exact ⟨h, rfl⟩
  | some fraction =>
    simp only [hderive, and_true]
    exact h.pushCutRow _

theorem Agree.addRoundedCut (h : Agree t s) (r : Nat) :
    Agree (t.addRoundedCut r).1 (s.addRoundedCut r).1 ∧
      (s.addRoundedCut r).2 = (t.addRoundedCut r).2 :=
  h.addDerivedCut fun fraction => by simp only [roundedRow, h.dictionary, h.isInteger]

theorem Agree.addFractionalCut (h : Agree t s) (r : Nat) :
    Agree (t.addFractionalCut r).1 (s.addFractionalCut r).1 ∧
      (s.addFractionalCut r).2 = (t.addFractionalCut r).2 :=
  h.addDerivedCut fun fraction => by simp only [fractionalRow, h.dictionary, h.isInteger]

theorem Agree.addRoundingCutsOf (h : Agree t s) (r : Nat) :
    Agree (t.addRoundingCutsOf r).1 (s.addRoundingCutsOf r).1 ∧
      (s.addRoundingCutsOf r).2 = (t.addRoundingCutsOf r).2 := by
  obtain ⟨hfirst, hfirstAdded⟩ := h.addRoundedCut r
  obtain ⟨hsecond, hsecondAdded⟩ := hfirst.addFractionalCut r
  refine ⟨hsecond, ?_⟩
  simp only [Tableau.addRoundingCutsOf, hfirstAdded, hsecondAdded]

theorem Agree.addRoundingCuts (h : Agree t s) (integers : List Nat) :
    Agree (t.addRoundingCuts integers).1 (s.addRoundingCuts integers).1 ∧
      (s.addRoundingCuts integers).2 = (t.addRoundingCuts integers).2 := by
  have hrows : s.fractionalRows integers = t.fractionalRows integers := by
    simp only [fractionalRows, h.dictionary, h.fractionalPart?]
  unfold Tableau.addRoundingCuts
  rw [hrows]
  generalize t.fractionalRows integers = rows
  generalize 0 = added
  induction rows generalizing t s added with
  | nil => exact ⟨h, rfl⟩
  | cons r rest ih =>
    obtain ⟨hfirst, hcount⟩ := h.addRoundingCutsOf r
    have hrows' : (s.addRoundingCutsOf r).1.fractionalRows integers =
        (t.addRoundingCutsOf r).1.fractionalRows integers := by
      simp only [fractionalRows, hfirst.dictionary, hfirst.fractionalPart?]
    simp only [List.foldl_cons, hcount]
    exact ih hfirst hrows' _

theorem Agree.fractionalVolume (h : Agree t s) (integers : List Nat) :
    s.fractionalVolume integers = t.fractionalVolume integers := by
  simp only [Tableau.fractionalVolume, fractionalValues, basicValues, h.dictionary, h.precision]

/-! ## Nodes -/

theorem roundingRounds_alike (effort : Effort) (integers : List Nat) (rounds : Nat)
    (h : SameAnswer t s) :
    Alike SameAnswer Agree (roundingRounds effort integers rounds t)
      (roundingRounds effort integers rounds s) := by
  induction rounds generalizing t s with
  | zero => exact ⟨rfl, h.toAgree⟩
  | succ rounds ih =>
    obtain ⟨hadded, hcount⟩ := h.toAgree.addRoundingCuts integers
    rw [roundingRounds_succ, roundingRounds_succ, h.isFeasible, h.isBounded, hcount,
      h.toAgree.fractionalVolume]
    split
    · split
      · have hruns := simplex_alike effort hadded
        cases hsimplex : simplex effort (t.addRoundingCuts integers).1 with
        | error fault middle =>
          obtain ⟨middle', hsimplex', hmiddle⟩ := hruns.exists_error hsimplex
          rw [hsimplex']
          exact ⟨rfl, hmiddle⟩
        | ok result middle =>
          obtain ⟨middle', hsimplex', hmiddle⟩ := hruns.exists_ok hsimplex
          simp only [hsimplex', hmiddle.toAgree.fractionalVolume]
          split
          · exact ih hmiddle
          · exact ⟨rfl, hmiddle⟩
      · exact ⟨rfl, h⟩
    · exact ⟨rfl, h⟩

/-- How a branch is solved depends on the state to return to, the cuts and the options
alone. -/
theorem solveBranch_alike (space : SearchSpace α) (effort : Effort) (cuts : List (Cut α))
    (hrestore : Agree t.restore s.restore) :
    Alike SameAnswer Agree (solveBranch space effort cuts t) (solveBranch space effort cuts s) := by
  have hadds := addCuts_alike cuts hrestore
  cases hadd : addCuts cuts t.restore with
  | error fault middle =>
    obtain ⟨middle', hadd', hmiddle⟩ := hadds.exists_error hadd
    rw [solveBranch_of_error hadd, solveBranch_of_error hadd']
    exact ⟨rfl, hmiddle⟩
  | ok result middle =>
    obtain ⟨middle', hadd', hmiddle⟩ := hadds.exists_ok hadd
    rw [solveBranch_of_addCuts effort hadd, solveBranch_of_addCuts effort hadd']
    have hruns := simplex_alike effort hmiddle
    cases hsimplex : simplex effort middle with
    | error fault solved =>
      obtain ⟨solved', hsimplex', hsolved⟩ := hruns.exists_error hsimplex
      rw [hsimplex']
      exact ⟨rfl, hsolved⟩
    | ok result solved =>
      obtain ⟨solved', hsimplex', hsolved⟩ := hruns.exists_ok hsimplex
      simp only [hsimplex']
      split
      · exact roundingRounds_alike effort space.integers effort.rounds hsolved
      · exact ⟨rfl, hsolved⟩

/-- From every state of a search, a branch is solved in the same way. -/
theorem solveBranch_again {root : Tableau α} {space : SearchSpace α} {effort : Effort}
    {cuts : List (Cut α)} (hroot : root.IsSound) (ht : IsSearchFrom root t)
    (hs : IsSearchFrom root s) (hok : solveBranch space effort cuts t = .ok () t') :
    ∃ s', solveBranch space effort cuts s = .ok () s' ∧ SameVerdict t' s' := by
  have hrestore := ReturnsTo.agree_restore hroot.hasClearPool ht.returnsTo hs.returnsTo
  obtain ⟨s', hs', hsame⟩ := (solveBranch_alike space effort cuts hrestore).exists_ok hok
  exact ⟨s', hs', hsame.toSameVerdict⟩

end Steps

end MixedInteger.Tableau
