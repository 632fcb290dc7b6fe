import Mathlib.Algebra.Order.Ring.Rat
import MixedInteger.Proofs.Registry

/-!
# The solutions that are kept

Over numbers in a linear order the rule by which a search accepts a solution is the
lexicographic order of all objectives, the primary one first.  Hence the kept solutions of a
solve never get worse in the direction of the model, and the last of them is the solution that
is reported.  This holds after every run, for all options, and whatever stops the search.
-/

namespace MixedInteger

/-- Numbers in a linear order that negation turns around. -/
class OrderedScalar (α : Type) [Scalar α] : Prop where
  beq_iff_eq (left right : α) : (left == right) = true ↔ left = right
  lt_irrefl (value : α) : ¬ value < value
  lt_trans {low middle high : α} : low < middle → middle < high → low < high
  lt_trichotomy (left right : α) : left < right ∨ left = right ∨ right < left
  neg_lt_neg {low high : α} : low < high → -high < -low
  neg_zero : -(0 : α) = 0

instance : OrderedScalar Rat where
  beq_iff_eq _ _ := beq_iff_eq
  lt_irrefl value := lt_irrefl value
  lt_trans := fun hlow hhigh => lt_trans hlow hhigh
  lt_trichotomy left right := lt_trichotomy left right
  neg_lt_neg := fun h => neg_lt_neg h
  neg_zero := neg_zero

variable {α : Type} [Scalar α] [OrderedScalar α]

/-! ## The order of solutions -/

theorem not_lt_of_lt {low high : α} (h : low < high) : ¬ high < low :=
  fun hback => OrderedScalar.lt_irrefl low (OrderedScalar.lt_trans h hback)

/-- Not to lie below is transitive. -/
instance transNotLt : Trans (fun high low : α => ¬ high < low) (fun high low => ¬ high < low)
    (fun high low => ¬ high < low) where
  trans {high middle low} hhigh hlow := by
    intro h
    rcases OrderedScalar.lt_trichotomy middle low with hmiddle | rfl | hmiddle
    · exact hlow hmiddle
    · exact hhigh h
    · exact hhigh (OrderedScalar.lt_trans h hmiddle)

/-- The rule for secondary objectives is the lexicographic order. -/
theorem lt_of_precedes (currents bests : List α) (h : precedes currents bests = true) :
    currents < bests := by
  induction currents generalizing bests with
  | nil => simp [precedes] at h
  | cons current currents ih =>
    cases bests with
    | nil => simp [precedes] at h
    | cons best bests =>
      rw [List.cons_lt_cons_iff]
      rw [precedes] at h
      rcases OrderedScalar.lt_trichotomy current best with hless | rfl | hmore
      · exact .inl hless
      · rw [if_neg (OrderedScalar.lt_irrefl current),
          if_neg (OrderedScalar.lt_irrefl current)] at h
        exact .inr ⟨rfl, ih bests h⟩
      · rw [if_pos hmore] at h
        exact absurd h (by simp)

namespace Accepted

variable {earlier later : Accepted α}

omit [OrderedScalar α] in
/-- The values of all objectives, the primary one first. -/
def objectives (accepted : Accepted α) : List α :=
  accepted.solved.objectiveValue :: accepted.solved.secondaryValues

theorem IsBeatenBy.objectives_lt (h : IsBeatenBy earlier later) :
    later.objectives < earlier.objectives := by
  rw [objectives, objectives, List.cons_lt_cons_iff]
  rw [IsBeatenBy, Incumbent.isBeatenBy] at h
  split at h
  · exact .inl (of_decide_eq_true h)
  · next hequal =>
    have heq : later.solved.objectiveValue = earlier.solved.objectiveValue := by
      apply (OrderedScalar.beq_iff_eq _ _).1
      simpa [incumbent, bne] using hequal
    exact .inr ⟨heq, lt_of_precedes _ _ h⟩

theorem IsBeatenBy.not_lt (h : IsBeatenBy earlier later) :
    ¬ earlier.solved.objectiveValue < later.solved.objectiveValue := by
  rcases List.cons_lt_cons_iff.1 h.objectives_lt with hless | ⟨hequal, -⟩
  · exact not_lt_of_lt hless
  · rw [hequal]
    exact OrderedScalar.lt_irrefl _

end Accepted

namespace SearchSpace

omit [OrderedScalar α] in
/-- A result is at least as good as another one in the direction of the model. -/
def IsNoWorse (space : SearchSpace α) (result other : α) : Prop :=
  if space.minimises then ¬ other < result else ¬ result < other

/-- The reported number is the evaluation in the direction of the model. -/
theorem reported_eq (space : SearchSpace α) (evaluation : α) :
    space.reported evaluation = if space.minimises then evaluation else -evaluation := by
  unfold reported
  split
  · next hzero =>
    rw [(OrderedScalar.beq_iff_eq _ _).1 hzero, OrderedScalar.neg_zero, ite_self]
  · rfl

theorem isNoWorse_reported (space : SearchSpace α) {evaluation other : α}
    (h : ¬ other < evaluation) :
    space.IsNoWorse (space.reported evaluation) (space.reported other) := by
  rw [IsNoWorse, reported_eq, reported_eq]
  cases space.minimises with
  | true => exact h
  | false =>
    intro hless
    rcases OrderedScalar.lt_trichotomy evaluation other with hbelow | hequal | habove
    · exact not_lt_of_lt hless (OrderedScalar.neg_lt_neg hbelow)
    · rw [hequal] at hless
      exact OrderedScalar.lt_irrefl _ hless
    · exact h habove

end SearchSpace

/-! ## Along runs -/

omit [OrderedScalar α] in
def Model.incumbents (effort : Effort) (model : Model α) : List (Accepted α) :=
  Tableau.incumbents model.ready.searchSpace effort effort.branches Search.start
    (model.ready.tableau.readied model.ready.searchSpace)

omit [OrderedScalar α] in
/-- An optimum of a model with integer variables is the last solution that was accepted. -/
theorem Model.IsOrderly.solve_reports {model model' : Model α} (h : model.IsOrderly)
    (hintegers : model.integers ≠ []) {effort : Effort} {solution : Solution α}
    (hsolve : Model.solve effort model = .ok solution model')
    (hfeasible : solution.isFeasible = true) (hbounded : solution.isBounded = true) :
    (model.options.keepsSolutions = true →
        solution.kept = (model.incumbents effort).map (Accepted.kept model.searchSpace)) ∧
      (model.incumbents effort).IsChain Accepted.IsBeatenBy ∧
      ∃ last ∈ (model.incumbents effort).getLast?,
        solution.evaluation = .finite (last.kept model.searchSpace).result ∧
        solution.values = (last.kept model.searchSpace).values := by
  obtain ⟨honTableau, (hready : Carries (fun _ => False) model model.ready), hsame⟩ :=
    h.ready_eq effort
  have hspace : model.ready.searchSpace = model.searchSpace := by
    rw [hsame]
    rfl
  have hempty : model.ready.searchSpace.integers.isEmpty = false := by
    rw [hspace]
    exact List.isEmpty_eq_false_iff.2 hintegers
  rw [honTableau, onTableau] at hsolve
  rw [← hspace]
  cases houtcome : Tableau.solve model.ready.searchSpace effort model.ready.tableau with
  | error fault t =>
    rw [houtcome] at hsolve
    exact absurd hsolve (by simp)
  | ok solution' t =>
    rw [houtcome] at hsolve
    injection hsolve with hsolution
    rw [hsolution] at houtcome
    have hreports := Tableau.solve_reports hready.orderly.pool hempty houtcome hfeasible hbounded
    rw [hspace] at hreports ⊢
    rw [Model.incumbents, hspace]
    exact hreports

namespace Operation

/-- After every run, a solve that keeps its solutions and finds an optimum of a model with
integer variables: the kept solutions are those that were accepted, each of which is better
than the one before it in the lexicographic order of the objectives; no result is worse than
an earlier one; and the last kept solution is the reported one. -/
theorem kept_after_run (precision : α) (options : Options α) (operations : List (Operation α))
    (model model' : Model α) (hmodel : model = after (Model.empty precision options) operations)
    (hintegers : model.integers ≠ []) (hkeeps : model.options.keepsSolutions = true)
    (effort : Effort) (solution : Solution α)
    (hsolve : Model.solve effort model = .ok solution model')
    (hfeasible : solution.isFeasible = true) (hbounded : solution.isBounded = true) :
    solution.kept = (model.incumbents effort).map (Accepted.kept model.searchSpace) ∧
      (model.incumbents effort).IsChain
        (fun earlier later => later.objectives < earlier.objectives) ∧
      solution.kept.Pairwise
        (fun earlier later => model.searchSpace.IsNoWorse later.result earlier.result) ∧
      ∃ last, solution.kept.getLast? = some last ∧
        solution.evaluation = .finite last.result ∧ solution.values = last.values := by
  have horderly : model.IsOrderly := by
    rw [hmodel]
    exact isOrderly_after precision options operations
  obtain ⟨hkept, hchain, last, hlast, hevaluation, hvalues⟩ :=
    horderly.solve_reports hintegers hsolve hfeasible hbounded
  have hkept := hkept hkeeps
  have hfalls : ((model.incumbents effort).map
      (fun accepted => accepted.solved.objectiveValue)).Pairwise
        (fun earlier later => ¬ earlier < later) := by
    apply List.IsChain.pairwise
    rw [List.isChain_map]
    exact hchain.imp fun _ _ hbeaten => hbeaten.not_lt
  refine ⟨hkept, hchain.imp fun _ _ hbeaten => hbeaten.objectives_lt, ?_,
    last.kept model.searchSpace, ?_, hevaluation, hvalues⟩
  · rw [hkept, List.pairwise_map]
    rw [List.pairwise_map] at hfalls
    exact hfalls.imp fun hearlier => model.searchSpace.isNoWorse_reported hearlier
  · rw [hkept, List.getLast?_map, Option.mem_def.1 hlast]
    rfl

/-- Two integer variables under two bounds.  Depth first, the search finds 12 and then 13. -/
def improvingModel : Model Rat :=
  after (Model.empty 1e-9
      { Options.standard with nodeSelection := .depthFirst, keepsSolutions := true })
    [.maximise,
      .addVariable ⟨5, none, true, false, .required⟩,
      .addVariable ⟨4, none, true, false, .required⟩,
      .atMost 4,
      .addTerm (.inequality 2) 2 0,
      .addTerm (.inequality 2) 1 1,
      .atMost 6,
      .addTerm (.inequality 3) 1 0,
      .addTerm (.inequality 3) 2 1]

theorem kept_after_improvingModel :
    ∃ solution model', Model.solve ⟨8, 0, 8, fun _ => 0⟩ improvingModel = .ok solution model' ∧
      solution.kept.map KeptSolution.result = [12, 13] ∧
      solution.kept.Pairwise (fun earlier later =>
        improvingModel.searchSpace.IsNoWorse later.result earlier.result) ∧
      ∃ last, solution.kept.getLast? = some last ∧
        solution.evaluation = .finite last.result ∧ solution.values = last.values := by
  have hends : Ends (Model.solve ⟨8, 0, 8, fun _ => 0⟩ improvingModel)
      (fun solution _ => solution.isFeasible = true ∧ solution.isBounded = true ∧
        solution.kept.map KeptSolution.result = [12, 13]) fun _ _ => False := by
    decide +kernel
  obtain ⟨solution, model', hsolve, hfeasible, hbounded, hresults⟩ := hends.exists_ok
  obtain ⟨-, -, hpairwise, hlast⟩ := kept_after_run _ _ _ improvingModel model' rfl
    (by decide +kernel) (by decide +kernel) _ solution hsolve hfeasible hbounded
  exact ⟨solution, model', hsolve, hresults, hpairwise, hlast⟩

end Operation

end MixedInteger
