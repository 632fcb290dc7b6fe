import Mathlib.Algebra.Order.Ring.Pow
import Mathlib.Data.Nat.Log
import Mathlib.Data.Rat.Floor
import MixedInteger.Proofs.BranchingChoice
import MixedInteger.Proofs.SearchOptimality

/-!
# The rounds of rounding cuts end

Every round of rounding cuts makes the tableau larger, so no size bounds the rounds.  What
gets smaller is the fractional volume: each round that is followed by another one takes off a
tenth of it.  It is at most one to begin with, and as long as there is a fractional variable
it is more than the precision to the power of the number of integer variables.  Seven rounds
halve it, so the number of rounds is bounded by the number of integer variables times the
binary logarithm of the precision, whatever the tableau and its cuts are.
-/

namespace MixedInteger

/-- How many rounds of rounding cuts a node can need at most. -/
def roundLimit (precision : Rat) (integers : Nat) : Nat :=
  7 * (integers * Nat.clog 2 ⌈1 / precision⌉₊) + 1

theorem half_pow_clog_le {precision : Rat} (hpos : 0 < precision) :
    (1 / 2 : Rat) ^ Nat.clog 2 ⌈1 / precision⌉₊ ≤ precision := by
  have hpower : (1 / precision : Rat) ≤ 2 ^ Nat.clog 2 ⌈1 / precision⌉₊ := by
    calc (1 / precision : Rat) ≤ ⌈1 / precision⌉₊ := Nat.le_ceil _
      _ ≤ 2 ^ Nat.clog 2 ⌈1 / precision⌉₊ := by
        exact_mod_cast Nat.le_pow_clog one_lt_two ⌈1 / precision⌉₊
  rw [one_div_pow, one_div_le (by positivity) hpos]
  exact hpower

/-- Seven rounds halve a volume. -/
theorem shrinkage_pow_le {precision : Rat} (hpos : 0 < precision) (integers : Nat) :
    (9 / 10 : Rat) ^ (7 * (integers * Nat.clog 2 ⌈1 / precision⌉₊)) ≤ precision ^ integers := by
  calc (9 / 10 : Rat) ^ (7 * (integers * Nat.clog 2 ⌈1 / precision⌉₊))
      = ((9 / 10) ^ 7) ^ (integers * Nat.clog 2 ⌈1 / precision⌉₊) := pow_mul _ _ _
    _ ≤ (1 / 2) ^ (integers * Nat.clog 2 ⌈1 / precision⌉₊) := by
      apply pow_le_pow_left₀ (by norm_num)
      norm_num
    _ = ((1 / 2) ^ Nat.clog 2 ⌈1 / precision⌉₊) ^ integers := by
      rw [mul_comm integers, pow_mul]
    _ ≤ precision ^ integers := pow_le_pow_left₀ (by positivity) (half_pow_clog_le hpos) integers

theorem pow_length_lt_prod {bound : Rat} (hbound : 0 < bound) {factors : List Rat}
    (hne : factors ≠ []) (hfactors : ∀ factor ∈ factors, bound < factor) :
    bound ^ factors.length < factors.prod := by
  induction factors with
  | nil => exact absurd rfl hne
  | cons factor rest ih =>
    obtain ⟨hfirst, hrest⟩ := List.forall_mem_cons.1 hfactors
    rw [List.length_cons, List.prod_cons, pow_succ']
    cases rest with
    | nil => simpa using hfirst
    | cons next rest =>
      exact mul_lt_mul'' hfirst (ih (by simp) hrest) hbound.le (by positivity)

namespace Tableau

/-! ## The fractional volume -/

section Volume

variable {t : Tableau Rat} {integers : List Nat}

theorem fractionalVolume_eq (t : Tableau Rat) (integers : List Nat) :
    t.fractionalVolume integers =
      if t.fractionalValues integers = [] then 0
      else ((t.fractionalValues integers).map fun entry => distanceToInteger entry.2).prod := by
  unfold fractionalVolume
  cases t.fractionalValues integers with
  | nil => rfl
  | cons first rest =>
    rw [if_neg (List.cons_ne_nil _ _), List.prod_eq_foldl, List.foldl_map]

theorem distanceToInteger_mem_Icc (value : Rat) : distanceToInteger value ∈ Set.Icc 0 1 := by
  have hhalf := abs_sub_roundRat_le value
  have hdistance : distanceToInteger value = |value - roundRat value| := scalar_abs_eq _
  rw [hdistance]
  exact ⟨abs_nonneg _, by linarith⟩

theorem fractionalVolume_mem_Icc (t : Tableau Rat) (integers : List Nat) :
    t.fractionalVolume integers ∈ Set.Icc 0 1 := by
  rw [fractionalVolume_eq]
  split
  · exact ⟨le_rfl, zero_le_one⟩
  · apply List.prod_induction (· ∈ Set.Icc (0 : Rat) 1)
    · exact fun left right hleft hright =>
        ⟨mul_nonneg hleft.1 hright.1, mul_le_one₀ hleft.2 hright.1 hright.2⟩
    · exact ⟨zero_le_one, le_rfl⟩
    · simp only [List.mem_map, forall_exists_index, and_imp, forall_apply_eq_imp_iff₂]
      exact fun entry _ => distanceToInteger_mem_Icc entry.2

theorem length_fractionalValues_le (t : Tableau Rat) (integers : List Nat) :
    (t.fractionalValues integers).length ≤ integers.length :=
  (List.length_filter_le _ _).trans (List.length_filterMap_le _ _)

/-- A volume that is not zero cannot be arbitrarily small. -/
theorem fractionalVolume_eq_zero_or (hpos : 0 < t.precision) (hle : t.precision ≤ 1)
    (integers : List Nat) :
    t.fractionalVolume integers = 0 ∨
      t.precision ^ integers.length < t.fractionalVolume integers := by
  rw [fractionalVolume_eq]
  split
  · exact .inl rfl
  next hne =>
  have hfar : ∀ factor ∈ (t.fractionalValues integers).map fun entry => distanceToInteger entry.2,
      t.precision < factor := by
    simp only [List.mem_map, forall_exists_index, and_imp, forall_apply_eq_imp_iff₂]
    exact fun entry hentry => (mem_fractionalValues_iff.1 hentry).2
  have hproduct := pow_length_lt_prod hpos (by simpa using hne) hfar
  rw [List.length_map] at hproduct
  exact .inr (lt_of_le_of_lt
    (pow_le_pow_of_le_one hpos.le hle (length_fractionalValues_le t integers)) hproduct)

theorem volumeShrinkage_eq : (volumeShrinkage : Rat) = 9 / 10 := by
  decide +kernel

end Volume

/-! ## One round after the other -/

/-- An operation on a tableau ends by itself, with a result or with a fault. -/
def Returns {α : Type} (action : Action α Unit) (t : Tableau α) : Prop :=
  Ends (action t) (fun _ _ => True) fun fault _ => fault ≠ (Cause.outOfSteps : Fault)

instance {α : Type} (action : Action α Unit) (t : Tableau α) : Decidable (Returns action t) :=
  inferInstanceAs (Decidable (Ends (action t) _ _))

section Rounds

variable {α : Type} [Scalar α] {effort : Effort} {integers : List Nat} {t t' : Tableau α}

/-- Whether a round starts and finds cuts. -/
def hasRound (integers : List Nat) (t : Tableau α) : Bool :=
  t.isFeasible && t.isBounded && (t.addRoundingCuts integers).2 != 0

/-- A round that no other one follows. -/
def lastRound (effort : Effort) (integers : List Nat) (t : Tableau α) :
    EStateM.Result Fault (Tableau α) Unit :=
  if t.hasRound integers then simplex effort (t.addRoundingCuts integers).1 else .ok () t

/-- The tableau with which another round starts, if one does. -/
def nextSource? (effort : Effort) (integers : List Nat) (t : Tableau α) : Option (Tableau α) :=
  if t.hasRound integers then
    match simplex effort (t.addRoundingCuts integers).1 with
    | .ok _ t' =>
      if !(volumeShrinkage * t.fractionalVolume integers ≤ t'.fractionalVolume integers : Bool) then
        some t'
      else none
    | .error _ _ => none
  else none

theorem roundingRounds_eq (rounds : Nat) :
    roundingRounds effort integers (rounds + 1) t =
      match nextSource? effort integers t with
      | some t' => roundingRounds effort integers rounds t'
      | none => lastRound effort integers t := by
  rw [roundingRounds_succ, nextSource?, lastRound, hasRound]
  cases t.isFeasible && t.isBounded with
  | false => rfl
  | true =>
    rw [if_pos rfl, Bool.true_and]
    split
    · cases simplex effort (t.addRoundingCuts integers).1 with
      | error fault t' => rfl
      | ok result t' =>
        dsimp only
        split <;> rfl
    · rfl

theorem roundingSources_eq (rounds : Nat) :
    roundingSources effort integers (rounds + 1) t =
      if t.isFeasible && t.isBounded then
        t :: (nextSource? effort integers t).elim [] (roundingSources effort integers rounds)
      else [] := by
  rw [roundingSources, nextSource?, hasRound]
  cases t.isFeasible && t.isBounded with
  | false => rfl
  | true =>
    rw [if_pos rfl, if_pos rfl, Bool.true_and]
    split
    · cases simplex effort (t.addRoundingCuts integers).1 with
      | error fault t' => rfl
      | ok result t' =>
        dsimp only
        split <;> rfl
    · rfl

/-- What is known where another round starts. -/
theorem of_nextSource? (h : nextSource? effort integers t = some t') :
    t.hasRound integers = true ∧ simplex effort (t.addRoundingCuts integers).1 = .ok () t' ∧
      ¬ volumeShrinkage * t.fractionalVolume integers ≤ t'.fractionalVolume integers := by
  unfold nextSource? at h
  split at h
  · next hround =>
    split at h
    · next t'' hsimplex =>
      split at h
      · next hshrinks =>
        rw [Option.some.injEq] at h
        rw [← h]
        exact ⟨hround, hsimplex, by simpa using hshrinks⟩
      · exact nomatch h
    · exact nomatch h
  · exact nomatch h

theorem roundingSources_of_nextSource? (h : nextSource? effort integers t = some t')
    (rounds : Nat) :
    roundingSources effort integers (rounds + 1) t =
      t :: roundingSources effort integers rounds t' := by
  have hround := (of_nextSource? h).1
  rw [hasRound, Bool.and_eq_true] at hround
  rw [roundingSources_eq, if_pos hround.1, h]
  rfl

theorem length_roundingSources_le_one (h : nextSource? effort integers t = none) (rounds : Nat) :
    (roundingSources effort integers (rounds + 1) t).length ≤ 1 := by
  rw [roundingSources_eq, h]
  split <;> simp

/-- The rounds end by themselves if not all of them are used up. -/
theorem roundingRounds_returns {rounds : Nat}
    (hspare : (roundingSources effort integers rounds t).length < rounds)
    (hruns : ∀ source ∈ roundingSources effort integers rounds t,
      (source.addRoundingCuts integers).2 ≠ 0 →
        Returns (simplex effort) (source.addRoundingCuts integers).1) :
    Returns (roundingRounds effort integers rounds) t := by
  induction rounds generalizing t with
  | zero => exact absurd hspare (Nat.not_lt_zero _)
  | succ rounds ih =>
    rw [Returns, roundingRounds_eq]
    cases hnext : nextSource? effort integers t with
    | none =>
      dsimp only
      unfold lastRound
      split
      · next hround =>
        simp only [hasRound, Bool.and_eq_true, bne_iff_ne] at hround
        apply hruns t _ hround.2
        rw [roundingSources_eq, if_pos (by simp [hround])]
        exact List.mem_cons_self
      · trivial
    | some t' =>
      rw [roundingSources_of_nextSource? hnext] at hspare hruns
      exact ih (Nat.lt_of_succ_lt_succ hspare) (List.forall_mem_cons.1 hruns).2

/-- Where the rounds are not used up, more of them change nothing. -/
theorem roundingRounds_more {rounds more : Nat} (hle : rounds ≤ more)
    (hspare : (roundingSources effort integers rounds t).length < rounds) :
    roundingRounds { effort with rounds := more } integers more t =
      roundingRounds effort integers rounds t := by
  -- The runs of the simplex method do not depend on the number of rounds.
  suffices hrounds : ∀ limit, rounds ≤ limit →
      roundingRounds { effort with rounds := more } integers limit t =
        roundingRounds effort integers rounds t from hrounds more hle
  clear hle
  intro limit hle
  induction rounds generalizing t limit with
  | zero => exact absurd hspare (Nat.not_lt_zero _)
  | succ rounds ih =>
    obtain ⟨limit, rfl⟩ := Nat.exists_eq_add_of_lt hle
    rw [roundingRounds_eq, roundingRounds_eq]
    change (match nextSource? effort integers t with
      | some t' => _
      | none => lastRound effort integers t) = _
    cases hnext : nextSource? effort integers t with
    | none => rfl
    | some t' =>
      rw [roundingSources_of_nextSource? hnext] at hspare
      exact ih (Nat.lt_of_succ_lt_succ hspare) _ (by omega)

end Rounds

/-! ## The volume bounds the rounds -/

section Limit

variable {effort : Effort} {integers : List Nat} {t t' : Tableau Rat}

/-- Another round starts with less volume and the same precision. -/
theorem fractionalVolume_lt_of_nextSource? (h : nextSource? effort integers t = some t') :
    t'.fractionalVolume integers < 9 / 10 * t.fractionalVolume integers ∧
      t'.precision = t.precision := by
  obtain ⟨-, hsimplex, hshrinks⟩ := of_nextSource? h
  have hprecision := precision_simplex effort (t.addRoundingCuts integers).1
  rw [hsimplex, precision_addRoundingCuts] at hprecision
  rw [volumeShrinkage_eq, not_le] at hshrinks
  exact ⟨hshrinks, hprecision⟩

theorem length_roundingSources_le (hpos : 0 < t.precision) (hle : t.precision ≤ 1) {steps : Nat}
    (hsteps : (9 / 10) ^ steps * t.fractionalVolume integers ≤ t.precision ^ integers.length)
    (rounds : Nat) : (roundingSources effort integers rounds t).length ≤ steps + 1 := by
  -- The volume is zero when all steps are taken, and a volume below zero there is not.
  induction rounds generalizing t steps with
  | zero => exact Nat.zero_le _
  | succ rounds ih =>
    cases hnext : nextSource? effort integers t with
    | none => exact (length_roundingSources_le_one hnext rounds).trans (Nat.le_add_left 1 steps)
    | some t' =>
      obtain ⟨hvolume, hprecision⟩ := fractionalVolume_lt_of_nextSource? hnext
      have hnonneg := (fractionalVolume_mem_Icc t' integers).1
      rw [roundingSources_of_nextSource? hnext, List.length_cons, Nat.add_le_add_iff_right]
      cases steps with
      | zero =>
        rw [pow_zero, one_mul] at hsteps
        rcases fractionalVolume_eq_zero_or hpos hle integers with hzero | hlarge
        · linarith
        · linarith
      | succ steps =>
        rw [← hprecision] at hpos hle hsteps
        apply ih hpos hle
        calc (9 / 10 : Rat) ^ steps * t'.fractionalVolume integers
            ≤ (9 / 10) ^ steps * (9 / 10 * t.fractionalVolume integers) := by gcongr
          _ = (9 / 10) ^ (steps + 1) * t.fractionalVolume integers := by ring
          _ ≤ t'.precision ^ integers.length := hsteps

/-- From any tableau the number of rounds is limited. -/
theorem length_roundingSources_le_roundLimit (effort : Effort) (integers : List Nat)
    (hpos : 0 < t.precision) (hle : t.precision ≤ 1) (rounds : Nat) :
    (roundingSources effort integers rounds t).length ≤
      roundLimit t.precision integers.length := by
  apply length_roundingSources_le hpos hle
  calc (9 / 10 : Rat) ^ (7 * (integers.length * Nat.clog 2 ⌈1 / t.precision⌉₊)) *
        t.fractionalVolume integers
      ≤ (9 / 10) ^ (7 * (integers.length * Nat.clog 2 ⌈1 / t.precision⌉₊)) :=
        mul_le_of_le_one_right (by positivity) (fractionalVolume_mem_Icc t integers).2
    _ ≤ t.precision ^ integers.length := shrinkage_pow_le hpos integers.length

end Limit

/-! ## The rounds of a branch -/

section Branches

variable {α : Type} [Scalar α]

/-- The tableau with which the rounds of a branch start, if it gets to them. -/
def roundsStart? (space : SearchSpace α) (effort : Effort) (cuts : List (Cut α))
    (t : Tableau α) : Option (Tableau α) :=
  match addCuts cuts t.restore with
  | .error _ _ => none
  | .ok _ t' =>
    match simplex effort t' with
    | .error _ _ => none
    | .ok _ t'' => if space.options.usesRoundingCuts then some t'' else none

/-- The tableaus from which the rounds of a branch derive their cuts. -/
def branchSources (space : SearchSpace α) (effort : Effort) (cuts : List (Cut α))
    (t : Tableau α) : List (Tableau α) :=
  (roundsStart? space effort cuts t).elim []
    (roundingSources effort space.integers effort.rounds)

/-- The tableaus on which a branch runs the simplex method: first with its own cuts, then
after every round that found some. -/
def branchRuns (space : SearchSpace α) (effort : Effort) (cuts : List (Cut α))
    (t : Tableau α) : List (Tableau α) :=
  match addCuts cuts t.restore with
  | .error _ _ => []
  | .ok _ t' =>
    t' :: ((branchSources space effort cuts t).map (addRoundingCuts · space.integers)).filterMap
      fun round => if round.2 = 0 then none else some round.1

variable {space : SearchSpace α} {effort : Effort} {cuts : List (Cut α)} {t t' : Tableau α}

theorem solveBranch_of_roundsStart? (h : roundsStart? space effort cuts t = some t') :
    solveBranch space effort cuts t = roundingRounds effort space.integers effort.rounds t' ∧
      t'.precision = t.precision := by
  have hprecision := (precision_addCuts cuts t.restore).trans (precision_discardSearch t)
  unfold roundsStart? at h
  cases hadd : addCuts cuts t.restore with
  | error fault t₁ => simp [hadd] at h
  | ok result t₁ =>
    rw [hadd] at hprecision
    rw [solveBranch_of_addCuts effort hadd]
    have hkept := (precision_simplex effort t₁).trans hprecision
    cases hsimplex : simplex effort t₁ with
    | error fault t₂ => simp [hadd, hsimplex] at h
    | ok result t₂ =>
      rw [hsimplex] at hkept
      simp only [hadd, hsimplex, Option.ite_none_right_eq_some, Option.some.injEq] at h
      dsimp only
      rw [if_pos h.1, ← h.2]
      exact ⟨rfl, hkept⟩

theorem solveBranch_of_no_roundsStart? (h : roundsStart? space effort cuts t = none) :
    solveBranch space effort cuts t =
      match addCuts cuts t.restore with
      | .error fault t' => .error fault t'
      | .ok _ t' => simplex effort t' := by
  unfold roundsStart? at h
  cases hadd : addCuts cuts t.restore with
  | error fault t₁ => exact solveBranch_of_error hadd
  | ok result t₁ =>
    rw [solveBranch_of_addCuts effort hadd]
    dsimp only
    cases hsimplex : simplex effort t₁ with
    | error fault t₂ => rfl
    | ok result t₂ =>
      simp only [hadd, hsimplex, ite_eq_right_iff, reduceCtorEq, imp_false] at h
      exact if_neg h

theorem solveBranch_returns_of_no_roundsStart? (h : roundsStart? space effort cuts t = none)
    (hruns : ∀ start ∈ branchRuns space effort cuts t, Returns (simplex effort) start) :
    Returns (solveBranch space effort cuts) t := by
  have hcuts := addCuts_faults cuts t.restore
  rw [Returns, solveBranch_of_no_roundsStart? h]
  unfold branchRuns at hruns
  cases hadd : addCuts cuts t.restore with
  | error fault t₁ =>
    rw [hadd] at hcuts
    obtain ⟨index, rfl⟩ := hcuts
    exact nofun
  | ok result t₁ =>
    simp only [hadd, List.forall_mem_cons] at hruns
    exact hruns.1

/-- A round with cuts is followed by a run of the simplex method. -/
theorem mem_branchRuns_of_source {source : Tableau α}
    (hsource : source ∈ branchSources space effort cuts t)
    (hadded : (source.addRoundingCuts space.integers).2 ≠ 0) :
    (source.addRoundingCuts space.integers).1 ∈ branchRuns space effort cuts t := by
  unfold branchRuns
  cases hadd : addCuts cuts t.restore with
  | error fault t₁ => simp [branchSources, roundsStart?, hadd] at hsource
  | ok result t₁ =>
    apply List.mem_cons_of_mem
    apply List.mem_filterMap.2
    exact ⟨_, List.mem_map_of_mem hsource, if_neg hadded⟩

end Branches

/-- The rounds of a branch end, whatever the tableau and the cuts are: there are at most as
many as the limit says, so a branch that may take more than that and whose runs of the simplex
method end does not run out of them, and no larger number changes its outcome. -/
theorem solveBranch_rounds_limited {t : Tableau Rat} (hpos : 0 < t.precision)
    (hlt : t.precision < 1) (space : SearchSpace Rat) (effort : Effort) (cuts : List (Cut Rat)) :
    (branchSources space effort cuts t).length ≤
        roundLimit t.precision space.integers.length ∧
      (roundLimit t.precision space.integers.length < effort.rounds →
        ((∀ start ∈ branchRuns space effort cuts t, Returns (simplex effort) start) →
          Returns (solveBranch space effort cuts) t) ∧
        ∀ more ≥ effort.rounds, solveBranch space { effort with rounds := more } cuts t =
          solveBranch space effort cuts t) := by
  cases hstart : roundsStart? space effort cuts t with
  | none =>
    have hsources : branchSources space effort cuts t = [] := by rw [branchSources, hstart]; rfl
    rw [hsources]
    refine ⟨Nat.zero_le _, fun _ => ⟨?_, ?_⟩⟩
    · exact solveBranch_returns_of_no_roundsStart? hstart
    · intro more _
      rw [solveBranch_of_no_roundsStart? hstart]
      exact solveBranch_of_no_roundsStart? hstart
  | some t' =>
    obtain ⟨hsolve, hprecision⟩ := solveBranch_of_roundsStart? hstart
    have hsources : branchSources space effort cuts t =
        roundingSources effort space.integers effort.rounds t' := by
      rw [branchSources, hstart]
      rfl
    rw [← hprecision] at hpos hlt ⊢
    have hlimit := length_roundingSources_le_roundLimit effort space.integers
      hpos hlt.le effort.rounds
    refine ⟨hsources ▸ hlimit, fun henough => ⟨?_, ?_⟩⟩
    · intro hruns
      rw [Returns, hsolve]
      apply roundingRounds_returns (hlimit.trans_lt henough)
      intro source hsource hadded
      exact hruns _ (mem_branchRuns_of_source (hsources ▸ hsource) hadded)
    · intro more hmore
      have hstart' : roundsStart? space { effort with rounds := more } cuts t = some t' := hstart
      rw [hsolve, (solveBranch_of_roundsStart? hstart').1]
      exact roundingRounds_more hmore (hlimit.trans_lt henough)

/-- Two integer variables under two bounds, at a precision of a tenth. -/
def twoCrops : Tableau Rat :=
  { blank (1 / 10) with
    dictionary :=
      { matrix := #[#[0, 5, 2], #[5, 1, 2], #[45, 10, 6]]
        basic := #[none, some 2, some 3]
        nonBasic := #[none, some 0, some 1]
        rowOf := ⟨#[none, none, some 1, some 2]⟩
        columnOf := ⟨#[some 1, some 2]⟩
        secondary := [] }
    pool := ⟨[], 4⟩
    arena := #[some (.declare "x" (-5) 0 .required .integer false),
      some (.declare "y" (-2) 1 .required .integer false), some (.slack 2), some (.slack 3)] }

/-- The third round starts without any volume and is the last one. -/
theorem solveBranch_rounds_limited_twoCrops :
    let space : SearchSpace Rat :=
      ⟨[0, 1], [0, 1], true, { Options.standard with usesRoundingCuts := true }⟩
    let effort : Effort := ⟨8, 58, 8, fun _ => 0⟩
    let cuts : List (Cut Rat) := [⟨.atMost, 1, 4⟩]
    (branchSources space effort cuts twoCrops).map (fractionalVolume · [0, 1]) =
        [1 / 2, 4 / 81, 0] ∧
      (branchSources space effort cuts twoCrops).length ≤ roundLimit (1 / 10) 2 ∧
      roundLimit (1 / 10) 2 < effort.rounds ∧
      Returns (solveBranch space effort cuts) twoCrops ∧
      solveBranch space { effort with rounds := 100 } cuts twoCrops =
        solveBranch space effort cuts twoCrops := by
  intro space effort cuts
  have henough : roundLimit (1 / 10) 2 < effort.rounds := by
    have hclog : Nat.clog 2 10 = 4 := by decide +kernel
    norm_num [roundLimit, effort, hclog]
  have hvolumes : (branchSources space effort cuts twoCrops).map (fractionalVolume · [0, 1]) =
      [1 / 2, 4 / 81, 0] := by
    decide +kernel
  have hruns : ∀ start ∈ branchRuns space effort cuts twoCrops,
      Returns (simplex effort) start := by
    decide +kernel
  obtain ⟨hlimit, hends⟩ := solveBranch_rounds_limited (by decide +kernel : 0 < twoCrops.precision)
    (by decide +kernel) space effort cuts
  obtain ⟨hreturns, hmore⟩ := hends henough
  exact ⟨hvolumes, hlimit, henough, hreturns hruns, hmore 100 (by decide)⟩

end Tableau

end MixedInteger
