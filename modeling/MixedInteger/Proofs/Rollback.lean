import MixedInteger.Proofs.Reruns

/-!
# Rollback

Between a snapshot and the return to it a tableau gets new rows with new slacks and is
pivoted, in any order, and each of these steps may fail after it has changed something.
The snapshot holds no variables; they are repaired by cutting the arena to its old length
and clearing what was free.  That brings back exactly the saved state, because every later
variable took an index that was free then or beyond all that were known.
-/

namespace MixedInteger.Tableau

variable {α : Type} [Scalar α]

/-! ## Steps that return to the saved state -/

namespace ReturnsTo

variable {root t : Tableau α}

theorem pushCutRow (h : ReturnsTo root t) (hroot : root.HasClearPool) (row : Array α) :
    ReturnsTo root (t.pushCutRow row) :=
  (h.register hroot fun _ => rfl).of_same rfl rfl rfl rfl rfl

/-- A cut on a variable that is not there leaves its slack behind. -/
theorem addCut (h : ReturnsTo root t) (hroot : root.HasClearPool) (cut : Cut α) :
    ReturnsTo root (finalState (Tableau.addCut cut t)) := by
  rw [addCut_run]
  split
  · exact h.pushCutRow hroot _
  · exact h.register hroot fun _ => rfl

theorem addCuts (h : ReturnsTo root t) (hroot : root.HasClearPool) (cuts : List (Cut α)) :
    ReturnsTo root (finalState (Tableau.addCuts cuts t)) := by
  apply Ends.finalState
  apply Ends.forM Tableau.addCut (ReturnsTo root) (fun _ => ReturnsTo root) cuts _ t h
  intro cut _ t' ht'
  exact Ends.of_finalState (ht'.addCut hroot cut)

theorem addRoundingCuts (h : ReturnsTo root t) (hroot : root.HasClearPool)
    (indices : List Nat) : ReturnsTo root (t.addRoundingCuts indices).1 :=
  addRoundingCuts_pushed (ReturnsTo root) (fun _ row ht => ht.pushCutRow hroot row) h indices

theorem simplex (h : ReturnsTo root t) (effort : Effort) :
    ReturnsTo root (finalState (Tableau.simplex effort t)) := by
  obtain ⟨hframe, -⟩ := simplex_onlyPivots effort t
  exact h.of_same hframe.precision hframe.checksCycles hframe.pool hframe.arena hframe.snapshot

theorem roundingRounds (h : ReturnsTo root t) (hroot : root.HasClearPool) (effort : Effort)
    (integers : List Nat) (rounds : Nat) :
    ReturnsTo root (finalState (Tableau.roundingRounds effort integers rounds t)) := by
  apply roundingRounds_kept (ReturnsTo root) _ h
  intro source _ _ hsource
  exact (hsource.addRoundingCuts hroot integers).simplex effort

/-- Solving a branch, whether it succeeds or not. -/
theorem solveBranch (h : ReturnsTo root t) (hroot : root.HasClearPool) (space : SearchSpace α)
    (effort : Effort) (cuts : List (Cut α)) :
    ReturnsTo root (finalState (Tableau.solveBranch space effort cuts t)) := by
  have hadded := (h.restore hroot).addCuts hroot cuts
  cases hadd : Tableau.addCuts cuts t.restore with
  | error fault t' =>
    rw [hadd] at hadded
    rw [solveBranch_of_error hadd]
    exact hadded
  | ok result t' =>
    rw [hadd] at hadded
    apply solveBranch_kept (ReturnsTo root) effort hadd (hadded.simplex effort)
    intro t'' ht''
    exact ht''.roundingRounds hroot effort space.integers effort.rounds

end ReturnsTo

/-! ## Variables that stay known -/

/-- A tableau with a sound pool knows all variables of another one as they were there. -/
structure Retains {β : Type} (t t' : Tableau β) : Prop where
  pool : t'.HasSoundPool
  known : ∀ index, (t.lookup? index).isSome → t'.lookup? index = t.lookup? index

namespace Retains

variable {β : Type} {t t' t'' : Tableau β}

theorem of_eq (h : t.HasSoundPool) (hpool : t'.pool = t.pool) (harena : t'.arena = t.arena) :
    Retains t t' := by
  refine ⟨h.of_eq hpool harena, ?_⟩
  intro index _
  rw [lookup?, harena, lookup?]

theorem trans (hfirst : Retains t t') (hsecond : Retains t' t'') : Retains t t'' := by
  refine ⟨hsecond.pool, ?_⟩
  intro index hindex
  have hknown := hfirst.known index hindex
  rw [hsecond.known index (by rw [hknown]; exact hindex), hknown]

theorem register (h : t.HasSoundPool) {make : Nat → Variable β}
    (hmake : ∀ index, (make index).index = index) : Retains t (t.register make).2 := by
  refine ⟨h.register hmake, ?_⟩
  intro index hindex
  rw [lookup?_register (hmake _), if_neg]
  rintro rfl
  rw [h.lookup?_allocate] at hindex
  exact absurd hindex (by simp)

end Retains

theorem Retains.pushCutRow {t t' : Tableau α} (h : Retains t t') (row : Array α) :
    Retains t (t'.pushCutRow row) := by
  have hregistered : Retains t' t'.registerSlack.2 := Retains.register h.pool fun _ => rfl
  exact h.trans (hregistered.trans (Retains.of_eq hregistered.pool rfl rfl))

theorem Retains.simplex {t t' : Tableau α} (h : Retains t t') (effort : Effort) :
    Retains t (finalState (Tableau.simplex effort t')) := by
  obtain ⟨hframe, -⟩ := simplex_onlyPivots effort t'
  exact h.trans (Retains.of_eq h.pool hframe.pool hframe.arena)

/-- What is outside a search stays outside it. -/
theorem snapshot_simplex (effort : Effort) (t : Tableau α) :
    (finalState (simplex effort t)).snapshot = t.snapshot :=
  (simplex_onlyPivots effort t).1.snapshot

/-- Solving the root of a search, whether it succeeds or not. -/
theorem retains_solveRoot {t : Tableau α} (hpool : t.HasSoundPool) (hsnapshot : t.snapshot = none)
    (space : SearchSpace α) (effort : Effort) :
    Retains t (finalState (solveBranch space effort [] t)) ∧
      (finalState (solveBranch space effort [] t)).snapshot = none := by
  let kept (t' : Tableau α) : Prop := Retains t t' ∧ t'.snapshot = none
  have hsimplex (t' : Tableau α) (ht' : kept t') : kept (finalState (simplex effort t')) :=
    ⟨ht'.1.simplex effort, (snapshot_simplex effort t').trans ht'.2⟩
  have hstart : kept t := ⟨Retains.of_eq hpool rfl rfl, hsnapshot⟩
  apply solveBranch_kept kept effort (addCuts_nil hsnapshot) (hsimplex t hstart)
  intro t' ht'
  apply roundingRounds_kept kept _ ht'
  intro source _ _ hsource
  apply hsimplex
  exact addRoundingCuts_pushed kept (fun _ row h => ⟨h.1.pushCutRow row, h.2⟩) hsource
    space.integers

omit [Scalar α] in
/-- Leaving a search brings back all that its root knew. -/
theorem ReturnsTo.retains_discardSearch {root t : Tableau α} (h : ReturnsTo root t)
    (hroot : root.HasSoundPool) : Retains root t.discardSearch :=
  Retains.of_eq hroot h.pool_restore (h.arena_restore hroot.hasClearPool)

/-! ## Sequences of steps -/

/-- What is done to a tableau between a snapshot and the return to it. -/
inductive SearchStep (α : Type) where
  | addCuts (cuts : List (Cut α))
  | addRoundingCuts (indices : List Nat)
  | simplex (effort : Effort)
  | restore

def SearchStep.perform : SearchStep α → Action α Unit
  | .addCuts cuts => Tableau.addCuts cuts
  | .addRoundingCuts indices => modify fun t => (t.addRoundingCuts indices).1
  | .simplex effort => Tableau.simplex effort
  | .restore => modify Tableau.restore

/-- The tableau after a sequence of steps; one that fails is followed by the next. -/
def afterSteps (t : Tableau α) (steps : List (SearchStep α)) : Tableau α :=
  steps.foldl (fun t step => finalState (step.perform t)) t

theorem ReturnsTo.perform {root t : Tableau α} (h : ReturnsTo root t) (hroot : root.HasClearPool)
    (step : SearchStep α) : ReturnsTo root (finalState (step.perform t)) := by
  cases step with
  | addCuts cuts => exact h.addCuts hroot cuts
  | addRoundingCuts indices => exact h.addRoundingCuts hroot indices
  | simplex effort => exact h.simplex effort
  | restore => exact h.restore hroot

theorem ReturnsTo.afterSteps {root t : Tableau α} (h : ReturnsTo root t)
    (hroot : root.HasClearPool) (steps : List (SearchStep α)) :
    ReturnsTo root (t.afterSteps steps) := by
  induction steps generalizing t with
  | nil => exact h
  | cons step rest ih => exact ih (h.perform hroot step)

/-- Whatever was done after a snapshot and however it ended, the return to it brings back
the dictionary, the free indices and the variables as they were saved.  So the outcome of
a branch depends on the saved state, its cuts and the options, and not on what was solved
in between: two attempts succeed with the same answer or fail with the same fault. -/
theorem restore_afterSteps (t : Tableau α) (hclear : t.HasClearPool)
    (steps : List (SearchStep α)) :
    (t.save.afterSteps steps).restore.dictionary = t.dictionary ∧
      (t.save.afterSteps steps).restore.pool = t.pool ∧
      (t.save.afterSteps steps).restore.arena = t.arena ∧
      ∀ (others : List (SearchStep α)) (space : SearchSpace α) (effort : Effort)
        (cuts : List (Cut α)),
        Alike SameAnswer Agree (solveBranch space effort cuts (t.save.afterSteps steps))
          (solveBranch space effort cuts (t.save.afterSteps others)) := by
  have hreturns := (ReturnsTo.save t).afterSteps hclear
  refine ⟨(hreturns steps).dictionary_restore, (hreturns steps).pool_restore,
    (hreturns steps).arena_restore hclear, ?_⟩
  intro others space effort cuts
  apply solveBranch_alike
  exact ReturnsTo.agree_restore hclear (hreturns steps) (hreturns others)

/-- An integer variable with the index 0 under a bound whose slack has the index 2; the
index 1 has been given back. -/
def recycling : Tableau Rat :=
  { blank 1e-9 with
    dictionary :=
      { matrix := #[#[0, 1], #[7 / 2, 1]]
        basic := #[none, some 2]
        nonBasic := #[none, some 0]
        rowOf := ⟨#[none, none, some 1]⟩
        columnOf := ⟨#[some 1, none, none]⟩
        secondary := [] }
    pool := ⟨[1], 3⟩
    arena := #[some (.declare "x" 1 0 .required .integer false), none, some (.slack 2)] }

/-- A cut that takes the index 1, one on a variable that is not there, a run, and a cut that
takes a fresh index. -/
def recyclingSteps : List (SearchStep Rat) :=
  [.addCuts [⟨.atMost, 0, 3⟩, ⟨.atLeast, 9, 1⟩], .simplex ⟨8, 8, 8, fun _ => 0⟩,
    .addCuts [⟨.atLeast, 0, 1⟩]]

def recyclingSpace : SearchSpace Rat where
  indices := [0]
  integers := [0]
  minimises := false
  options := { Options.standard with usesRoundingCuts := true }

/-- The branch of a bound, solved with rounding cuts, has the answer 3 after these steps and
right after the snapshot. -/
theorem restore_afterSteps_recycling :
    recycling.validate = .ok () ∧ recycling.HasClearPool ∧
      (recycling.save.afterSteps recyclingSteps).pool = ⟨[], 5⟩ ∧
      (recycling.save.afterSteps recyclingSteps).restore.dictionary = recycling.dictionary ∧
      (recycling.save.afterSteps recyclingSteps).restore.pool = ⟨[1], 3⟩ ∧
      (recycling.save.afterSteps recyclingSteps).restore.arena = recycling.arena ∧
      ∃ t s, solveBranch recyclingSpace ⟨8, 8, 8, fun _ => 0⟩ [⟨.atLeast, 0, 1⟩]
          (recycling.save.afterSteps recyclingSteps) = .ok () t ∧
        solveBranch recyclingSpace ⟨8, 8, 8, fun _ => 0⟩ [⟨.atLeast, 0, 1⟩] recycling.save =
          .ok () s ∧
        t.dictionary.valueOf 0 = 3 ∧ SameAnswer t s := by
  have hclear : recycling.HasClearPool := ⟨by decide +kernel, by decide +kernel⟩
  obtain ⟨hdictionary, hpool, harena, hbranch⟩ :=
    restore_afterSteps recycling hclear recyclingSteps
  have hends : Ends (solveBranch recyclingSpace ⟨8, 8, 8, fun _ => 0⟩ [⟨.atLeast, 0, 1⟩]
      (recycling.save.afterSteps recyclingSteps))
      (fun _ t => t.dictionary.valueOf 0 = 3) fun _ _ => False := by
    decide +kernel
  obtain ⟨_, t, hok, hvalue⟩ := hends.exists_ok
  obtain ⟨s, hok', hsame⟩ := (hbranch [] _ _ _).exists_ok hok
  exact ⟨by decide +kernel, hclear, by decide +kernel, hdictionary, hpool, harena, t, s, hok, hok',
    hvalue, hsame⟩

end MixedInteger.Tableau
