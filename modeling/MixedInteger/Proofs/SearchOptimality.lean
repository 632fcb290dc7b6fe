import MixedInteger.Proofs.Reruns
import MixedInteger.Proofs.SearchNodes

/-!
# Branch and cut finds the best integral point

A search accounts for every integral point: an open branch contains it and its bound does
not rule it out, or the best solution so far is at least as good.  Every node keeps this
so, whichever branch comes next and whichever variable is branched on.  When no branch is
left, or the best solution is close enough to the bound of the root, the best solution is
as good as the search promises, and solving its branch again shows it.
-/

namespace MixedInteger

/-! ## Distances to integers -/

theorem isWhole_roundRat (value : Rat) : IsWhole (roundRat value) := by
  unfold roundRat
  split <;> exact ⟨_, rfl⟩

theorem abs_sub_roundRat_le (value : Rat) : |value - roundRat value| ≤ 1 / 2 := by
  rw [abs_le]
  unfold roundRat
  split
  · have hlow := Rat.floor_le (value + 1 / 2)
    have hhigh := Rat.lt_floor_add_one (value + 1 / 2)
    push_cast at hhigh
    constructor <;> linarith
  · have hlow := Rat.ceil_le_iff.1 (le_refl (value - 1 / 2).ceil)
    have hhigh := Rat.lt_ceil_iff.1 (sub_one_lt (value - 1 / 2).ceil)
    push_cast at hhigh
    constructor <;> linarith

/-- No integer is closer than the rounded value. -/
theorem abs_sub_roundRat_le_abs_sub (value : Rat) (n : ℤ) :
    |value - roundRat value| ≤ |value - n| := by
  by_contra hcloser
  have hhalf := abs_sub_roundRat_le value
  obtain ⟨m, hm⟩ := isWhole_roundRat value
  rw [hm] at hcloser hhalf
  have hnear : |((m - n : ℤ) : Rat)| < 1 := by
    have htriangle := abs_sub_le (m : Rat) value n
    rw [abs_sub_comm (m : Rat) value] at htriangle
    push_cast
    linarith [not_le.1 hcloser]
  have hsame : m = n := by
    have hzero : |m - n| < 1 := by exact_mod_cast hnear
    exact sub_eq_zero.1 (Int.abs_lt_one_iff.1 hzero)
  rw [hsame] at hcloser
  exact hcloser (le_refl _)

namespace Tableau

variable {base root t t' s : Tableau Rat} {x : Nat → Rat}

/-- The basic values of the integer variables are whole or clearly not. -/
def IsCrispOn (t : Tableau Rat) (integers : List Nat) : Prop :=
  ∀ entry ∈ t.basicValues integers, IsWhole entry.2 ∨ ∀ n : ℤ, t.precision < |entry.2 - n|

theorem isCrispOn_iff {integers : List Nat} :
    t.IsCrispOn integers ↔ ∀ entry ∈ t.basicValues integers,
      distanceToInteger entry.2 = 0 ∨ t.precision < distanceToInteger entry.2 := by
  apply forall₂_congr
  intro entry _
  have hdistance : distanceToInteger entry.2 = |entry.2 - roundRat entry.2| := scalar_abs_eq _
  rw [hdistance]
  constructor
  · rintro (⟨n, hn⟩ | hfar)
    · left
      have hle := abs_sub_roundRat_le_abs_sub entry.2 n
      rw [hn, sub_self, abs_zero, ← hn] at hle
      exact le_antisymm hle (abs_nonneg _)
    · right
      obtain ⟨m, hm⟩ := isWhole_roundRat entry.2
      rw [hm]
      exact hfar m
  · rintro (hzero | hfar)
    · left
      rw [sub_eq_zero.1 (abs_eq_zero.1 hzero)]
      exact isWhole_roundRat entry.2
    · right
      intro n
      exact lt_of_lt_of_le hfar (abs_sub_roundRat_le_abs_sub entry.2 n)

instance (t : Tableau Rat) (integers : List Nat) : Decidable (t.IsCrispOn integers) :=
  decidable_of_iff _ isCrispOn_iff.symm

/-- In a crisp tableau the test for integral solutions is exact. -/
theorem IsCrispOn.isWhole_valueOf {integers : List Nat} (h : t.IsCrispOn integers)
    (hintegral : t.isIntegralOn integers = true) {index : Nat} (hindex : index ∈ integers) :
    IsWhole (t.dictionary.valueOf index) := by
  unfold Dictionary.valueOf
  cases hrow : t.dictionary.row? index with
  | none => exact isWhole_zero
  | some r =>
    have hentry : (index, t.dictionary.entry r 0) ∈ t.basicValues integers :=
      List.mem_filterMap.2 ⟨index, hindex, by rw [hrow]; rfl⟩
    have hclose := List.all_eq_true.1 hintegral _ hentry
    rw [decide_eq_true_iff, distanceToInteger, scalar_abs_eq] at hclose
    rcases h _ hentry with hwhole | hfar
    · exact hwhole
    · obtain ⟨n, hn⟩ := isWhole_roundRat (t.dictionary.entry r 0)
      have hround : Scalar.round (t.dictionary.entry r 0) = (n : Rat) := hn
      rw [hround] at hclose
      exact absurd (hfar n) (not_lt.2 hclose)

end Tableau

/-! ## Points and branches -/

/-- A branch contains a point and does not rule it out by its bound. -/
structure Branch.Contains (base : Tableau Rat) (branch : Branch Rat) (x : Nat → Rat) :
    Prop where
  cuts : Tableau.AllHold branch.cuts x
  bound_le : ∀ bound ∈ branch.bound, bound ≤ base.round (base.cost x)

/-- A branch split at an integer variable loses no point. -/
theorem Branch.Contains.split {base : Tableau Rat} {branch : Branch Rat} {x : Nat → Rat}
    (h : branch.Contains base x) {bound : Rat} (hbound : bound ≤ base.round (base.cost x))
    {index : Nat} (hwhole : IsWhole (x index)) (value : Rat) :
    (branch.low bound index value).Contains base x ∨
      (branch.high bound index value).Contains base x := by
  have hbeside (kind : CutKind) : Tableau.AllHold (branch.cutsBeside index kind) x :=
    fun cut hcut => h.cuts cut (List.mem_filter.1 hcut).1
  have hnew : ∀ bound' ∈ some bound, bound' ≤ base.round (base.cost x) := by
    rintro bound' ⟨⟩
    exact hbound
  -- No whole value lies strictly between the floor and the ceiling.
  obtain ⟨n, hn⟩ := hwhole
  rcases le_total (n : Rat) value with hle | hle
  · have hfloor : (n : Rat) ≤ (value.floor : Rat) := by exact_mod_cast Rat.le_floor_iff.2 hle
    refine .inl ⟨?_, hnew⟩
    intro cut hcut
    rcases List.mem_append.1 hcut with hold | hlast
    · exact hbeside .atMost cut hold
    · rw [List.mem_singleton.1 hlast]
      exact hn.trans_le hfloor
  · have hceil : (value.ceil : Rat) ≤ n := by exact_mod_cast Rat.ceil_le_iff.2 hle
    refine .inr ⟨?_, hnew⟩
    intro cut hcut
    rcases List.mem_append.1 hcut with hold | hlast
    · exact hbeside .atLeast cut hold
    · rw [List.mem_singleton.1 hlast]
      exact hceil.trans_eq hn.symm

namespace Search

variable {base : Tableau Rat} {search : Search Rat} {x : Nat → Rat} {evaluation : Rat}
  {secondary : List Rat}

def Covers (base : Tableau Rat) (search : Search Rat) (x : Nat → Rat) : Prop :=
  (∃ branch ∈ search.branches, branch.Contains base x) ∨
    ∃ incumbent ∈ search.incumbent, incumbent.evaluation ≤ base.round (base.cost x)

/-- Where a branch is taken up, a point is in it or accounted for by the rest. -/
theorem Covers.takeUp (h : search.Covers base x) {branch : Branch Rat}
    {branches : List (Branch Rat)} (hbranches : search.branches = branch :: branches) :
    branch.Contains base x ∨ Covers base { search with branches := branches } x := by
  rcases h with ⟨other, hother, hin⟩ | hbetter
  · rw [hbranches] at hother
    rcases List.mem_cons.1 hother with rfl | hmem
    · exact .inl hin
    · exact .inr (.inl ⟨other, hmem, hin⟩)
  · exact .inr (.inr hbetter)

theorem exists_lt_of_isWorse (h : search.isWorse evaluation = true) :
    ∃ incumbent ∈ search.incumbent, incumbent.evaluation < evaluation := by
  obtain ⟨incumbent, hincumbent, hworse⟩ := (Option.any_eq_true _ _).1 h
  exact ⟨incumbent, hincumbent, by simpa using hworse⟩

/-- A node is fathomed only if the best solution so far is at least as good. -/
theorem exists_le_of_isFathomed (h : search.isFathomed evaluation secondary = true) :
    ∃ incumbent ∈ search.incumbent, incumbent.evaluation ≤ evaluation := by
  rw [isFathomed, Bool.or_eq_true] at h
  rcases h with hworse | hbeaten
  · obtain ⟨incumbent, hincumbent, hlt⟩ := exists_lt_of_isWorse hworse
    exact ⟨incumbent, hincumbent, le_of_lt hlt⟩
  · obtain ⟨incumbent, hincumbent, hnot⟩ := (Option.any_eq_true _ _).1 hbeaten
    refine ⟨incumbent, hincumbent, ?_⟩
    by_contra hless
    have hbeats : incumbent.isBeatenBy evaluation secondary = true := by
      have hne : (evaluation != incumbent.evaluation) = true := by
        rw [bne_iff_ne]
        exact ne_of_lt (not_le.1 hless)
      rw [Incumbent.isBeatenBy, if_pos hne]
      exact decide_eq_true (not_le.1 hless)
    rw [hbeats] at hnot
    exact absurd hnot (by simp)

theorem le_of_not_isFathomed (h : search.isFathomed evaluation secondary = false)
    {incumbent : Incumbent Rat} (hincumbent : incumbent ∈ search.incumbent) :
    evaluation ≤ incumbent.evaluation := by
  rw [isFathomed, Bool.or_eq_false_iff] at h
  by_contra hless
  have hworse : search.isWorse evaluation = true :=
    (Option.any_eq_true _ _).2 ⟨incumbent, hincumbent, decide_eq_true (not_le.1 hless)⟩
  exact absurd (hworse.symm.trans h.1) (by simp)

theorem mem_branches_split {order : NodeSelection} {branch other : Branch Rat} {bound : Rat}
    {index : Nat} {value : Rat} :
    other ∈ (search.split order branch bound index value).branches ↔
      other = branch.low bound index value ∨ other = branch.high bound index value ∨
        other ∈ search.branches := by
  cases order with
  | bestBound => simp [split]
  | depthFirst => simp [split]

end Search

namespace Tableau

/-! ## The nodes of a search -/

/-- A node of a search: the tableau before its branch was solved, and the cuts of the
branch. -/
structure Node (α : Type) where
  before : Tableau α
  cuts : List (Cut α)

def nodesAfter {α : Type} (nodes : Search α → Tableau α → List (Node α)) :
    EStateM.Result Fault (Tableau α) (NodeOutcome α) → List (Node α)
  | .ok (.continue search) t => nodes search t
  | _ => []

def exploredNodes {α : Type} [Scalar α] (space : SearchSpace α) (effort : Effort) :
    Nat → Search α → Tableau α → List (Node α)
  | 0, _, _ => []
  | budget + 1, search, t =>
    match search.branches with
    | [] => []
    | branch :: branches =>
      let search := { search with branches := branches }
      if search.isTimedOut space effort || search.isCloseEnough space t.rootEvaluation then []
      else if branch.bound.any search.isWorse then exploredNodes space effort budget search t
      else
        let visited := (solveBranch space effort branch.cuts >>= fun _ =>
          visitNode space { search with nodes := search.nodes + 1 } branch) t
        ⟨t, branch.cuts⟩ :: nodesAfter (exploredNodes space effort budget) visited

theorem exploredNodes_start {α : Type} [Scalar α] (space : SearchSpace α) (effort : Effort)
    (budget : Nat) (t : Tableau α) :
    exploredNodes space effort (budget + 1) Search.start t =
      ⟨t, []⟩ :: nodesAfter (exploredNodes space effort budget)
        ((solveBranch space effort [] >>= fun _ => visitNode space atRoot rootBranch) t) := by
  rw [exploredNodes]
  rfl

/-- The tableaus of a node are separated, and its solution is crisp. -/
structure Node.IsClear (space : SearchSpace Rat) (effort : Effort) (node : Node Rat) :
    Prop where
  separated : ∀ visited ∈ branchTableaus space effort node.cuts node.before, visited.IsSeparated
  crisp : (finalState (solveBranch space effort node.cuts node.before)).IsCrispOn space.integers

instance (space : SearchSpace Rat) (effort : Effort) (node : Node Rat) :
    Decidable (node.IsClear space effort) :=
  decidable_of_iff
    ((∀ visited ∈ branchTableaus space effort node.cuts node.before, visited.IsSeparated) ∧
      (finalState (solveBranch space effort node.cuts node.before)).IsCrispOn space.integers)
    ⟨fun h => ⟨h.1, h.2⟩, fun h => ⟨h.separated, h.crisp⟩⟩

section Optimality

variable {space : SearchSpace Rat} {effort : Effort} {best : Rat} {search : Search Rat}
  {branch : Branch Rat}

/-- A search space lists the integer variables of a tableau. -/
structure IsPosed (base : Tableau Rat) (space : SearchSpace Rat) : Prop where
  sound : base.IsSound
  mem_integers_iff : ∀ index, index ∈ space.integers ↔
    base.dictionary.HasVariable index ∧ base.isInteger (some index) = true

/-- Where a branch is split, its points are accounted for by its two parts. -/
theorem IsPosed.covers_split (h : IsPosed base space) (hx : base.IsIntegralPoint x)
    (hcovers : branch.Contains base x ∨ search.Covers base x) {bound : Rat}
    (hbound : branch.Contains base x → bound ≤ base.round (base.cost x)) {index : Nat}
    (hindex : index ∈ space.integers) {order : NodeSelection} {value : Rat} :
    (search.split order branch bound index value).Covers base x := by
  obtain ⟨hvariable, hinteger⟩ := (h.mem_integers_iff index).1 hindex
  rcases hcovers with hcontains | ⟨other, hother, hin⟩ | hbetter
  · rcases hcontains.split (hbound hcontains) (hx.whole index hvariable hinteger) value with
      hlow | hhigh
    · exact .inl ⟨_, Search.mem_branches_split.2 (.inl rfl), hlow⟩
    · exact .inl ⟨_, Search.mem_branches_split.2 (.inr (.inl rfl)), hhigh⟩
  · exact .inl ⟨other, Search.mem_branches_split.2 (.inr (.inr hother)), hin⟩
  · exact .inr hbetter

/-- An integral point of `base` that is the basic solution of a tableau with an optimum. -/
structure IsIntegralOptimum (base t : Tableau Rat) : Prop where
  feasible : t.isFeasible = true
  bounded : t.isBounded = true
  point : base.IsIntegralPoint t.dictionary.valueOf
  objectiveValue_eq : t.objectiveValue = base.round (base.cost t.dictionary.valueOf)

theorem IsIntegralOptimum.of_sameVerdict (h : IsIntegralOptimum base t) (hs : SameVerdict t s) :
    IsIntegralOptimum base s := by
  refine ⟨hs.isFeasible.trans h.feasible, hs.isBounded.trans h.bounded, ?_, ?_⟩
  · rw [hs.dictionary]
    exact h.point
  · rw [objectiveValue, round_eq hs.precision, hs.dictionary]
    exact h.objectiveValue_eq

theorem IsSolved.isIntegralOptimum {holds : (Nat → Rat) → Prop} (h : IsSolved base holds t)
    (hposed : IsPosed base space) (hfeasible : t.isFeasible = true)
    (hbounded : t.isBounded = true) (hcrisp : t.IsCrispOn space.integers)
    (hintegral : t.isIntegralOn space.integers = true) : IsIntegralOptimum base t := by
  obtain ⟨hpoint, hvalue⟩ := h.basicSolution hfeasible hbounded
  refine ⟨hfeasible, hbounded, ⟨hpoint, ?_⟩, hvalue⟩
  intro index hindex hinteger
  exact hcrisp.isWhole_valueOf hintegral ((hposed.mem_integers_iff index).2 ⟨hindex, hinteger⟩)

/-- The best solution so far is an integral optimum of its branch. -/
def IsAttained (base root : Tableau Rat) (space : SearchSpace Rat) (effort : Effort)
    (incumbent : Incumbent Rat) : Prop :=
  ∃ before solved, IsSearchFrom root before ∧
    solveBranch space effort incumbent.branch.cuts before = .ok () solved ∧
    IsIntegralOptimum base solved ∧ incumbent.evaluation = solved.objectiveValue

/-- A search after its root was split: all integral points are accounted for, and the best
solution so far is attained. -/
structure IsUnderway (base root : Tableau Rat) (space : SearchSpace Rat) (effort : Effort)
    (best : Rat) (search : Search Rat) (t : Tableau Rat) : Prop where
  state : IsSearchFrom root t
  record : HasRecord best t
  nodes_pos : 0 < search.nodes
  cuts : CutsWithin space.integers search
  covers : ∀ x, base.IsIntegralPoint x → search.Covers base x
  attained : ∀ incumbent ∈ search.incumbent, IsAttained base root space effort incumbent

structure IsAtNode (base root : Tableau Rat) (space : SearchSpace Rat) (effort : Effort)
    (best : Rat) (search : Search Rat) (branch : Branch Rat) (t : Tableau Rat) : Prop where
  state : IsSearchFrom root t
  record : HasRecord best t
  solved : IsSolved base (AllHold branch.cuts) t
  crisp : t.IsCrispOn space.integers
  reached : ∃ before, IsSearchFrom root before ∧
    solveBranch space effort branch.cuts before = .ok () t
  later : 1 < search.nodes
  cuts : CutsWithin space.integers search
  branch_cuts : ∀ cut ∈ branch.cuts, cut.index ∈ space.integers
  covers : ∀ x, base.IsIntegralPoint x → branch.Contains base x ∨ search.Covers base x
  attained : ∀ incumbent ∈ search.incumbent, IsAttained base root space effort incumbent

namespace IsAtNode

/-- A branch whose points are accounted for elsewhere is dropped. -/
theorem drop (h : IsAtNode base root space effort best search branch t)
    (hbranch : ∀ x, base.IsIntegralPoint x → branch.Contains base x → search.Covers base x) :
    IsUnderway base root space effort best search t :=
  ⟨h.state, h.record, Nat.lt_of_succ_lt h.later, h.cuts,
    fun x hx => (h.covers x hx).elim (hbranch x hx) id, h.attained⟩

theorem drop_infeasible (h : IsAtNode base root space effort best search branch t)
    (hinfeasible : t.isFeasible = false) : IsUnderway base root space effort best search t :=
  h.drop fun _ hx hcontains => absurd hcontains.cuts (h.solved.not_holds hinfeasible hx)

theorem objectiveValue_le (h : IsAtNode base root space effort best search branch t)
    (hposed : IsPosed base space) (hfeasible : t.isFeasible = true)
    (hbounded : t.isBounded = true) (hx : base.IsIntegralPoint x)
    (hcontains : branch.Contains base x) : t.objectiveValue ≤ base.round (base.cost x) :=
  h.solved.objectiveValue_le hposed.sound.consistent.isNamed hfeasible hbounded hx hcontains.cuts

theorem drop_fathomed (h : IsAtNode base root space effort best search branch t)
    (hposed : IsPosed base space) (hfeasible : t.isFeasible = true)
    (hbounded : t.isBounded = true)
    (hfathomed : search.isFathomed t.objectiveValue t.secondaryValues = true) :
    IsUnderway base root space effort best search t := by
  apply h.drop
  intro x hx hcontains
  obtain ⟨incumbent, hincumbent, hle⟩ := Search.exists_le_of_isFathomed hfathomed
  exact .inr ⟨incumbent, hincumbent,
    le_trans hle (h.objectiveValue_le hposed hfeasible hbounded hx hcontains)⟩

/-- An integral optimum that is not fathomed becomes the best solution. -/
theorem accept (h : IsAtNode base root space effort best search branch t)
    (hposed : IsPosed base space) (hfeasible : t.isFeasible = true)
    (hbounded : t.isBounded = true)
    (hfathomed : search.isFathomed t.objectiveValue t.secondaryValues = false)
    (hintegral : t.isIntegralOn space.integers = true) :
    IsUnderway base root space effort best
      { search with
        kept := keptWith space search t
        incumbent := some ⟨t.objectiveValue, t.secondaryValues, branch⟩ }
      { t with isIntegral := true } := by
  refine ⟨h.state.of_same rfl rfl rfl rfl rfl rfl,
    ⟨h.record.reached, h.record.rootEvaluation_eq⟩, Nat.lt_of_succ_lt h.later,
    ⟨h.cuts.branches, ?_⟩, ?_, ?_⟩
  · rintro incumbent ⟨⟩
    exact h.branch_cuts
  · intro x hx
    rcases h.covers x hx with hcontains | hopen | ⟨incumbent, hincumbent, hle⟩
    · exact .inr ⟨_, rfl, h.objectiveValue_le hposed hfeasible hbounded hx hcontains⟩
    · exact .inl hopen
    · exact .inr ⟨_, rfl, le_trans (Search.le_of_not_isFathomed hfathomed hincumbent) hle⟩
  · rintro incumbent ⟨⟩
    obtain ⟨before, hbefore, hok⟩ := h.reached
    exact ⟨before, t, hbefore, hok,
      h.solved.isIntegralOptimum hposed hfeasible hbounded h.crisp hintegral, rfl⟩

/-- A branch that is split leaves its points to its two parts. -/
theorem split (h : IsAtNode base root space effort best search branch t)
    (hposed : IsPosed base space) (hfeasible : t.isFeasible = true)
    (hbounded : t.isBounded = true) {index : Nat} (hindex : index ∈ space.integers)
    (value : Rat) :
    IsUnderway base root space effort best
      (search.split space.options.nodeSelection branch t.objectiveValue index value) t := by
  refine ⟨h.state, h.record, Nat.lt_of_succ_lt h.later,
    cutsWithin_split h.cuts h.branch_cuts _ _ hindex value, ?_, h.attained⟩
  intro x hx
  exact hposed.covers_split hx (h.covers x hx)
    (h.objectiveValue_le hposed hfeasible hbounded hx) hindex

end IsAtNode

/-- A later node leaves the search underway, or finds it unbounded. -/
theorem visitNode_underway (h : IsAtNode base root space effort best search branch t)
    (hposed : IsPosed base space) :
    Ends (visitNode space search branch t)
      (fun outcome t' => match outcome with
        | .continue search' => IsUnderway base root space effort best search' t'
        | .final _ => t'.isBounded = false)
      fun _ _ => True := by
  have hlater : (search.nodes == 1) = false := by simpa using Nat.ne_of_gt h.later
  rw [visitNode_eq]
  split
  · next hinfeasible => exact h.drop_infeasible (by simpa using hinfeasible)
  next hfeasible =>
  have hfeasible' : t.isFeasible = true := by simpa using hfeasible
  split
  · next hunbounded => exact (by simpa using hunbounded : t.isBounded = false)
  next hbounded =>
  have hbounded' : t.isBounded = true := by simpa using hbounded
  split
  · next hfathomed => exact h.drop_fathomed hposed hfeasible' hbounded' hfathomed
  next hfathomed =>
  split
  · next hintegral =>
    rw [acceptNode_eq, hlater]
    exact h.accept hposed hfeasible' hbounded' (by simpa using hfathomed) hintegral
  · rw [splitNode_eq, hlater]
    simp only [Bool.false_eq_true, if_false]
    cases hfound : t.branchingVariable? space.options.branching space.integers with
    | none => trivial
    | some found =>
      exact h.split hposed hfeasible' hbounded' (mem_of_branchingVariable? hfound) found.2

/-! ## Whole searches -/

/-- The solved root of a search on `base`, with a bound on the integral points. -/
structure IsRootOf (base root : Tableau Rat) (best : Rat) : Prop where
  sound : root.IsSound
  relaxes : Relaxes base root fun _ => True
  best_le : ∀ x, base.IsIntegralPoint x → best ≤ base.round (base.cost x)

/-- Taking up the next branch. -/
theorem IsUnderway.solveBranch (h : IsUnderway base root space effort best search t)
    (hposed : IsPosed base space) (hroot : IsRootOf base root best)
    {branches : List (Branch Rat)} (hbranches : search.branches = branch :: branches)
    (hclear : Node.IsClear space effort ⟨t, branch.cuts⟩) :
    Ends (Tableau.solveBranch space effort branch.cuts t)
      (fun _ => IsAtNode base root space effort best
        { search with branches := branches, nodes := search.nodes + 1 } branch)
      fun _ _ => True := by
  have hall := h.cuts.branches
  rw [hbranches] at hall
  obtain ⟨hbranch, hrest⟩ := List.forall_mem_cons.1 hall
  have hcuts (cut : Cut Rat) (hcut : cut ∈ branch.cuts) :
      base.dictionary.HasVariable cut.index :=
    ((hposed.mem_integers_iff cut.index).1 (hbranch cut hcut)).1
  have hstate : IsSearchFrom root (finalState (Tableau.solveBranch space effort branch.cuts t)) :=
    solveBranch_search h.state hroot.sound effort fun cut hcut =>
      (hroot.sound.consistent.hasVariable_iff cut.index).1
        (hroot.relaxes.hasVariable cut.index (hcuts cut hcut))
  have hrestore := h.state.restore hroot.sound
  have hrelaxes : Relaxes base t.restore fun _ => True :=
    hroot.relaxes.of_lookup? hrestore.precision h.state.dictionary_restore
      (h.state.lookup?_discardSearch hroot.sound)
  have hsolved := hrelaxes.solveBranch_solved hrestore.sound hcuts hclear.separated
  have hrecord : Ends (Tableau.solveBranch space effort branch.cuts t) _ _ := h.record.solveBranch
  have hcrisp := hclear.crisp
  cases hok : Tableau.solveBranch space effort branch.cuts t with
  | error fault t' => trivial
  | ok result t' =>
    simp only [hok] at hstate hsolved hrecord hcrisp
    exact ⟨hstate, hrecord, hsolved, hcrisp, ⟨t, h.state, hok⟩, Nat.succ_lt_succ h.nodes_pos,
      ⟨hrest, h.cuts.incumbent⟩, hbranch, fun x hx => (h.covers x hx).takeUp hbranches,
      h.attained⟩

/-- A branch with a bound that is worse than the best solution is dropped. -/
theorem IsUnderway.drop (h : IsUnderway base root space effort best search t)
    {branches : List (Branch Rat)} (hbranches : search.branches = branch :: branches)
    (hworse : branch.bound.any search.isWorse = true) :
    IsUnderway base root space effort best { search with branches := branches } t := by
  have hall := h.cuts.branches
  rw [hbranches] at hall
  refine ⟨h.state, h.record, h.nodes_pos,
    ⟨(List.forall_mem_cons.1 hall).2, h.cuts.incumbent⟩, ?_, h.attained⟩
  intro x hx
  rcases (h.covers x hx).takeUp hbranches with hin | hcovers
  · obtain ⟨bound, hbound, hless⟩ := (Option.any_eq_true _ _).1 hworse
    obtain ⟨incumbent, hincumbent, hlt⟩ := Search.exists_lt_of_isWorse hless
    exact .inr ⟨incumbent, hincumbent, le_trans (le_of_lt hlt) (hin.bound_le bound hbound)⟩
  · exact hcovers

/-- The end of a search: the best solution is attained, and no integral point is better by
more than the tolerance. -/
structure IsSettled (base root : Tableau Rat) (space : SearchSpace Rat) (effort : Effort)
    (best : Rat) (search : Search Rat) (t : Tableau Rat) : Prop where
  state : IsSearchFrom root t
  record : HasRecord best t
  attained : ∀ incumbent ∈ search.incumbent, IsAttained base root space effort incumbent
  near : ∀ x, base.IsIntegralPoint x → ∃ incumbent ∈ search.incumbent,
    incumbent.evaluation ≤ base.round (base.cost x) + space.options.tolerance * |best|

theorem IsUnderway.settle_of_nil (h : IsUnderway base root space effort best search t)
    (htolerance : 0 ≤ space.options.tolerance) (hbranches : search.branches = []) :
    IsSettled base root space effort best search t := by
  refine ⟨h.state, h.record, h.attained, ?_⟩
  intro x hx
  rcases h.covers x hx with ⟨branch, hbranch, -⟩ | ⟨incumbent, hincumbent, hle⟩
  · rw [hbranches] at hbranch
    exact absurd hbranch List.not_mem_nil
  · have hgap := mul_nonneg htolerance (abs_nonneg best)
    exact ⟨incumbent, hincumbent, by linarith⟩

theorem IsUnderway.settle_of_close (h : IsUnderway base root space effort best search t)
    (hroot : IsRootOf base root best) {branches : List (Branch Rat)}
    (hclose : Search.isCloseEnough { search with branches := branches } space
      t.rootEvaluation = true) :
    IsSettled base root space effort best { search with branches := branches } t := by
  refine ⟨h.state, h.record, h.attained, ?_⟩
  intro x hx
  obtain ⟨incumbent, hincumbent, hgap⟩ := (Option.any_eq_true _ _).1 hclose
  rw [h.record.rootEvaluation_eq, Bool.and_eq_true, decide_eq_true_iff, decide_eq_true_iff,
    scalar_abs_eq] at hgap
  have hbest := hroot.best_le x hx
  exact ⟨incumbent, hincumbent, by linarith [hgap.2]⟩

/-- The loop over later nodes settles the search, or finds it unbounded. -/
theorem explore_settles (hposed : IsPosed base space) (hroot : IsRootOf base root best)
    (htimeout : space.options.timeout = none) (htolerance : 0 ≤ space.options.tolerance)
    {budget : Nat} (h : IsUnderway base root space effort best search t)
    (hclear : ∀ node ∈ exploredNodes space effort budget search t, node.IsClear space effort) :
    Ends (explore space effort budget search t)
      (fun outcome t' => match outcome with
        | .continue search' => IsSettled base root space effort best search' t'
        | .final _ => t'.isBounded = false)
      fun _ _ => True := by
  -- `IsUnderway` is the invariant of the loop; a search that runs out of budget fails.
  induction budget generalizing search t with
  | zero => trivial
  | succ budget ih =>
    rw [explore_succ]
    rw [exploredNodes] at hclear
    cases hbranches : search.branches with
    | nil => exact h.settle_of_nil htolerance hbranches
    | cons branch branches =>
      have htimely (search : Search Rat) : search.isTimedOut space effort = false := by
        rw [Search.isTimedOut, htimeout, Option.any_none, Bool.and_false]
      simp only [hbranches, htimely, Bool.false_or] at hclear ⊢
      split
      · next hclose => exact h.settle_of_close hroot hclose
      next hopen =>
      rw [if_neg hopen] at hclear
      split
      · next hworse =>
        rw [if_pos hworse] at hclear
        exact ih (h.drop hbranches hworse) hclear
      next hpromising =>
      rw [if_neg hpromising] at hclear
      obtain ⟨hnode, hlater⟩ := List.forall_mem_cons.1 hclear
      have hsolve := h.solveBranch hposed hroot hbranches hnode
      cases hok : Tableau.solveBranch space effort branch.cuts t with
      | error fault t' =>
        rw [bind_of_error hok]
        trivial
      | ok result t' =>
        rw [hok] at hsolve
        rw [bind_of_ok hok] at hlater ⊢
        have hvisit := visitNode_underway hsolve hposed
        cases hvisited : visitNode space
            { search with branches := branches, nodes := search.nodes + 1 } branch t' with
        | error fault t'' =>
          rw [bind_of_error hvisited]
          trivial
        | ok outcome t'' =>
          rw [hvisited] at hvisit hlater
          rw [bind_of_ok hvisited]
          cases outcome with
          | «continue» search' => exact ih hvisit hlater
          | final search' => exact hvisit

/-- What a search says about the integral points of `base`. -/
structure IsAnswer (base : Tableau Rat) (tolerance : Rat) (t : Tableau Rat) : Prop where
  infeasible : t.isFeasible = false → ∀ x, ¬ base.IsIntegralPoint x
  optimal : t.isFeasible = true → base.IsIntegralPoint t.dictionary.valueOf ∧
    t.evaluation = .finite (base.round (base.cost t.dictionary.valueOf)) ∧
    ∀ x, base.IsIntegralPoint x →
      base.round (base.cost t.dictionary.valueOf) ≤
        base.round (base.cost x) + tolerance * |t.rootEvaluation|

/-- The best solution of a settled search, reached again, answers what the search was
about. -/
theorem IsSettled.solveBranch (h : IsSettled base root space effort best search t)
    (hroot : IsRootOf base root best) {incumbent : Incumbent Rat}
    (hincumbent : search.incumbent = some incumbent) :
    Ends (Tableau.solveBranch space effort incumbent.branch.cuts t)
      (fun _ => IsAnswer base space.options.tolerance) fun _ _ => True := by
  -- The branch was solved before, from another tableau of the same search.
  obtain ⟨before, solved, hbefore, hok, hoptimum, hevaluation⟩ := h.attained incumbent hincumbent
  obtain ⟨final, hfinal, hsame⟩ := solveBranch_again hroot.sound hbefore h.state hok
  have hrecord : Ends (Tableau.solveBranch space effort incumbent.branch.cuts t) _ _ :=
    h.record.solveBranch
  have hevaluated := solveBranch_evaluated space effort incumbent.branch.cuts t
  rw [hfinal] at hrecord hevaluated
  have hoptimum' := hoptimum.of_sameVerdict hsame
  have hvalue : incumbent.evaluation = base.round (base.cost final.dictionary.valueOf) := by
    rw [hevaluation, hoptimum.objectiveValue_eq, hsame.dictionary]
  rw [hfinal]
  refine ⟨fun hinfeasible => absurd (hoptimum'.feasible.symm.trans hinfeasible) (by simp), ?_⟩
  intro _
  refine ⟨hoptimum'.point, ?_, ?_⟩
  · rw [← hoptimum'.objectiveValue_eq]
    exact hevaluated hoptimum'.feasible hoptimum'.bounded
  · intro x hx
    obtain ⟨other, hother, hnear⟩ := h.near x hx
    rw [hincumbent, Option.mem_some] at hother
    rw [← hvalue, hother, hrecord.rootEvaluation_eq]
    exact hnear

/-- Returning to the best solution answers what the search was about. -/
theorem IsSettled.finishSearch (h : IsSettled base root space effort best search t)
    (hroot : IsRootOf base root best) :
    Ends (Tableau.finishSearch space effort search t)
      (fun _ => IsAnswer base space.options.tolerance) fun _ _ => True := by
  unfold Tableau.finishSearch
  cases hincumbent : search.incumbent with
  | none =>
    refine ⟨?_, by simp⟩
    intro _ x hx
    obtain ⟨incumbent, hsome, -⟩ := h.near x hx
    rw [hincumbent] at hsome
    exact absurd hsome (by simp)
  | some incumbent =>
    apply Ends.bind (h.solveBranch hroot hincumbent)
    intro _ t' ht'
    exact ⟨ht'.infeasible, ht'.optimal⟩

/-- The root of a search, once its relaxation is solved. -/
structure IsAtRoot (base root : Tableau Rat) (space : SearchSpace Rat) : Prop where
  solved : IsSolved base (AllHold []) root
  crisp : root.IsCrispOn space.integers
  evaluated : root.isFeasible = true → root.isBounded = true →
    root.evaluation = .finite root.objectiveValue
  bounds : root.isFeasible = true → root.isBounded = true → root.optimaReached ≠ 0 ∧
    ∀ x, base.IsIntegralPoint x → root.rootEvaluation ≤ base.round (base.cost x)

theorem IsPosed.solveRoot (h : IsPosed base space) (hsnapshot : base.snapshot = none)
    (hoptima : base.optimaReached = 0) (hclear : Node.IsClear space effort ⟨base, []⟩) :
    Ends (solveBranch space effort [] base) (fun _ root => IsAtRoot base root space)
      fun _ _ => True := by
  have hrestore : base.restore = base := restore_eq_self hsnapshot
  have hrelaxes : Relaxes base base.restore fun _ => True := by
    rw [hrestore]
    exact Relaxes.refl base _
  have hsolved := hrelaxes.solveBranch_solved (by rw [hrestore]; exact h.sound) (by simp)
    hclear.separated
  have hevaluated := solveBranch_evaluated space effort [] base
  have hbounds := h.sound.rootEvaluation_le hsnapshot hoptima hclear.separated
  have hcrisp := hclear.crisp
  cases hok : solveBranch space effort [] base with
  | error fault root => trivial
  | ok result root =>
    simp only [hok] at hsolved hevaluated hbounds hcrisp
    exact ⟨hsolved, hcrisp, hevaluated, hbounds⟩

namespace IsAtRoot

theorem allHold_nil (x : Nat → Rat) : AllHold [] x :=
  fun _ hcut => absurd hcut List.not_mem_nil

theorem isRootOf (h : IsAtRoot base root space) (hfeasible : root.isFeasible = true)
    (hbounded : root.isBounded = true) : IsRootOf base root root.rootEvaluation :=
  ⟨h.solved.sound, h.solved.relaxes.mono fun x _ => allHold_nil x,
    (h.bounds hfeasible hbounded).2⟩

/-- An integral root is optimal. -/
theorem isAnswer (h : IsAtRoot base root space) (hposed : IsPosed base space)
    (htolerance : 0 ≤ space.options.tolerance) (hfeasible : root.isFeasible = true)
    (hbounded : root.isBounded = true) (hintegral : root.isIntegralOn space.integers = true) :
    IsAnswer base space.options.tolerance root := by
  have hoptimum := h.solved.isIntegralOptimum hposed hfeasible hbounded h.crisp hintegral
  refine ⟨fun hinfeasible => absurd (hfeasible.symm.trans hinfeasible) (by simp), ?_⟩
  intro _
  rw [← hoptimum.objectiveValue_eq]
  refine ⟨hoptimum.point, h.evaluated hfeasible hbounded, ?_⟩
  intro x hx
  have hle := h.solved.objectiveValue_le hposed.sound.consistent.isNamed hfeasible hbounded hx
    (allHold_nil x)
  have hgap := mul_nonneg htolerance (abs_nonneg root.rootEvaluation)
  linarith

/-- Splitting the root begins the search. -/
theorem split (h : IsAtRoot base root space) (hposed : IsPosed base space)
    (hfeasible : root.isFeasible = true) (hbounded : root.isBounded = true) {index : Nat}
    (hindex : index ∈ space.integers) (value : Rat) :
    IsUnderway base root space effort root.rootEvaluation
      (Search.split atRoot space.options.nodeSelection rootBranch root.save.objectiveValue index
        value) root.save := by
  have hwithin : CutsWithin space.integers (atRoot : Search Rat) :=
    ⟨by simp [atRoot], by simp [atRoot]⟩
  have hcuts : ∀ cut ∈ (rootBranch : Branch Rat).cuts, cut.index ∈ space.integers := by
    simp [rootBranch]
  refine ⟨h.solved.sound.save, ⟨(h.bounds hfeasible hbounded).1, rfl⟩, Nat.one_pos,
    cutsWithin_split hwithin hcuts _ _ hindex value, ?_, ?_⟩
  · intro x hx
    have hcontains : rootBranch.Contains base x := ⟨allHold_nil x, by simp [rootBranch]⟩
    apply hposed.covers_split hx (.inl hcontains) _ hindex
    intro _
    exact h.solved.objectiveValue_le hposed.sound.consistent.isNamed hfeasible hbounded hx
      (allHold_nil x)
  · rintro incumbent ⟨⟩

end IsAtRoot

def Concludes (base : Tableau Rat) (space : SearchSpace Rat) (effort : Effort)
    (outcome : NodeOutcome Rat) (t : Tableau Rat) : Prop :=
  match outcome with
  | .final _ => t.isBounded = true → IsAnswer base space.options.tolerance t
  | .continue search =>
    (∃ root best, IsRootOf base root best ∧ IsSettled base root space effort best search t) ∨
      search.incumbent = none ∧ ∀ x, ¬ base.IsIntegralPoint x

/-- How a search goes on after its root: there is no integral point, or the root was
split. -/
def GoesOn (base root : Tableau Rat) (space : SearchSpace Rat) (effort : Effort)
    (search : Search Rat) (t : Tableau Rat) : Prop :=
  (search = atRoot ∧ ∀ x, ¬ base.IsIntegralPoint x) ∨
    IsRootOf base root root.rootEvaluation ∧
      IsUnderway base root space effort root.rootEvaluation search t

/-- The root is the last node, or the search goes on. -/
theorem visitRoot_concludes (h : IsAtRoot base root space) (hposed : IsPosed base space)
    (htolerance : 0 ≤ space.options.tolerance) (effort : Effort) :
    Ends (visitNode space atRoot rootBranch root)
      (fun outcome t => match outcome with
        | .final _ => t.isBounded = true → IsAnswer base space.options.tolerance t
        | .continue search => GoesOn base root space effort search t)
      fun _ _ => True := by
  rw [visitNode_eq]
  split
  · next hinfeasible =>
    refine .inl ⟨rfl, ?_⟩
    intro x hx
    exact h.solved.not_holds (by simpa using hinfeasible) hx (IsAtRoot.allHold_nil x)
  next hfeasible =>
  have hfeasible' : root.isFeasible = true := by simpa using hfeasible
  split
  · next hunbounded => exact fun hbounded => absurd hbounded (by simpa using hunbounded)
  next hbounded =>
  have hbounded' : root.isBounded = true := by simpa using hbounded
  -- Without a solution nothing is fathomed.
  have hfathomed : Search.isFathomed atRoot root.objectiveValue root.secondaryValues = false :=
    rfl
  rw [hfathomed, if_neg (by simp)]
  have hfirst : ((atRoot : Search Rat).nodes == 1) = true := rfl
  split
  · next hintegral =>
    have hanswer := h.isAnswer hposed htolerance hfeasible' hbounded' hintegral
    rw [acceptNode_eq, if_pos hfirst]
    exact fun _ => ⟨hanswer.infeasible, hanswer.optimal⟩
  · rw [splitNode_eq, hfirst]
    simp only [if_true]
    cases hfound : root.save.branchingVariable? space.options.branching space.integers with
    | none => trivial
    | some found =>
      exact .inr ⟨h.isRootOf hfeasible' hbounded',
        h.split hposed hfeasible' hbounded' (mem_of_branchingVariable? hfound) found.2⟩

theorem GoesOn.explore_concludes (h : GoesOn base root space effort search t)
    (hposed : IsPosed base space) (htimeout : space.options.timeout = none)
    (htolerance : 0 ≤ space.options.tolerance) {budget : Nat}
    (hclear : ∀ node ∈ exploredNodes space effort budget search t, node.IsClear space effort) :
    Ends (explore space effort budget search t) (Concludes base space effort)
      fun _ _ => True := by
  rcases h with ⟨rfl, hnone⟩ | ⟨hroot, hunderway⟩
  · have hbranches : (atRoot : Search Rat).branches = [] := rfl
    rcases explore_nil effort budget hbranches t with hnil | hnil
    · rw [hnil]
      trivial
    · rw [hnil]
      exact .inr ⟨rfl, hnone⟩
  · apply (explore_settles hposed hroot htimeout htolerance hunderway hclear).success
    intro outcome t' ht'
    cases outcome with
    | «continue» search' => exact .inl ⟨root, root.rootEvaluation, hroot, ht'⟩
    | final search' => exact fun hbounded => absurd (hbounded.symm.trans ht') (by simp)

theorem explore_concludes (hposed : IsPosed base space) (hsnapshot : base.snapshot = none)
    (hoptima : base.optimaReached = 0) (htimeout : space.options.timeout = none)
    (htolerance : 0 ≤ space.options.tolerance)
    (hclear : ∀ node ∈ exploredNodes space effort effort.branches Search.start base,
      node.IsClear space effort) :
    Ends (explore space effort effort.branches Search.start base) (Concludes base space effort)
      fun _ _ => True := by
  cases hbranches : effort.branches with
  | zero => trivial
  | succ budget =>
    rw [hbranches, exploredNodes_start] at hclear
    obtain ⟨hnode, hlater⟩ := List.forall_mem_cons.1 hclear
    have hsolve := hposed.solveRoot hsnapshot hoptima hnode
    rw [explore_start]
    cases hok : solveBranch space effort [] base with
    | error fault root =>
      rw [bind_of_error hok]
      trivial
    | ok result root =>
      rw [hok] at hsolve
      rw [bind_of_ok hok] at hlater ⊢
      have hvisit := visitRoot_concludes hsolve hposed htolerance effort
      cases hvisited : visitNode space atRoot rootBranch root with
      | error fault t =>
        rw [bind_of_error hvisited]
        trivial
      | ok outcome t =>
        rw [hvisited] at hvisit hlater
        rw [bind_of_ok hvisited]
        cases outcome with
        | final search => exact hvisit
        | «continue» search => exact hvisit.explore_concludes hposed htimeout htolerance hlater

/-- A search answers what it was about, unless it is unbounded. -/
theorem branchAndCut_answers (hposed : IsPosed base space) (hsnapshot : base.snapshot = none)
    (hoptima : base.optimaReached = 0) (htimeout : space.options.timeout = none)
    (htolerance : 0 ≤ space.options.tolerance)
    (hclear : ∀ node ∈ exploredNodes space effort effort.branches Search.start base,
      node.IsClear space effort) :
    Ends (branchAndCut space effort base)
      (fun _ t => t.isBounded = true → IsAnswer base space.options.tolerance t)
      fun _ _ => True := by
  unfold branchAndCut
  apply Ends.bind (explore_concludes hposed hsnapshot hoptima htimeout htolerance hclear)
  intro outcome t ht
  cases outcome with
  | final search => exact ht
  | «continue» search =>
    rcases ht with ⟨root, best, hroot, hsettled⟩ | ⟨hincumbent, hnone⟩
    · apply Ends.bind (hsettled.finishSearch hroot)
      intro _ t' ht' _
      exact ht'
    · have hfinish : finishSearch space effort search t =
          .ok () { t.restore with
            isFeasible := false, isIntegral := false, nodesExplored := search.nodes } := by
        unfold finishSearch
        rw [hincumbent]
        rfl
      change Ends ((finishSearch space effort search >>= fun _ => pure search.kept) t) _ _
      rw [bind_of_ok hfinish]
      intro _
      exact ⟨fun _ => hnone, by simp⟩

end Optimality

end Tableau

end MixedInteger
