import MixedInteger.Proofs.Building
import MixedInteger.Proofs.RoundTrip
import MixedInteger.Proofs.SearchOptimality

/-!
# Optimality of mixed-integer solves

The first solve of a model with integer variables searches the tableau that was built from
the model.  Its integral points are the assignments that meet the model with whole integer
variables, extended to the slacks of the constraints, at the same cost.  So what the search
says about its tableau, the solve says about the model.
-/

namespace MixedInteger

namespace Dictionary

variable {d : Dictionary Rat}

/-- A point that agrees with another one outside the basis; the basic variables follow. -/
def completed (d : Dictionary Rat) (x : Nat → Rat) (index : Nat) : Rat :=
  match d.row? index with
  | some r => d.rowValue (d.row r) x
  | none => x index

theorem satisfies_completed (h : d.IsNamed) (x : Nat → Rat) : d.Satisfies (d.completed x) := by
  intro r hr index hindex
  have hvalue : d.rowValue (d.row r) (d.completed x) = d.rowValue (d.row r) x := by
    apply rowValue_congr rfl rfl
    intro c hc
    obtain ⟨name, hname⟩ := h.exists_nonBasicAt hc
    rw [IsNamed.nameAt_eq hname, completed, h.row?_eq_none hc hname]
  rw [hvalue, completed, h.row?_eq_some hr hindex]

end Dictionary

namespace Model

variable {model : Model Rat} {kept : Tableau Rat → Prop} {x y : Nat → Rat}

/-- An assignment that meets the model, with whole integer variables. -/
structure IsIntegralSolution (model : Model Rat) (x : Nat → Rat) : Prop where
  met : model.IsMetWithin 0 x
  whole : ∀ index ∈ model.integers, IsWhole (x index)

/-- The tableau on which a solve of a model begins. -/
def searched (model : Model Rat) : Tableau Rat :=
  model.ready.tableau.readied model.ready.searchSpace

def searchNodes (effort : Effort) (model : Model Rat) : List (Tableau.Node Rat) :=
  Tableau.exploredNodes model.searchSpace effort effort.branches Search.start model.searched

/-- The objective depends on the declared variables only. -/
theorem objectiveAt_of_agree (hxy : ∀ index ∈ model.indices, y index = x index)
    (priority : Priority) : model.objectiveAt priority y = model.objectiveAt priority x := by
  rw [objectiveAt, objectiveAt]
  congr 2
  apply List.map_congr_left
  intro index hindex
  rw [hxy index hindex]

/-- What a tableau that was just built has to do with its model. -/
structure IsBuilt (model : Model Rat) (base : Tableau Rat) : Prop where
  precision_eq : base.precision = model.tableau.precision
  snapshot_eq : base.snapshot = none
  optimaReached_eq : base.optimaReached = 0
  sound : base.IsSound
  lookup?_eq : ∀ index, base.lookup? index = model.tableau.lookup? index
  fits : model.Fits base
  denotes : base.dictionary.Denotes model
  row?_eq : ∀ index ∈ model.indices, base.dictionary.row? index = none

theorem IsUnbuilt.isBuilt_searched (h : model.IsUnbuilt kept) (hsound : model.IsSound) :
    model.IsBuilt model.searched := by
  obtain ⟨tableau, hload, hprecision, hsnapshot, hpool, harena, hwith⟩ := load_eq_ok hsound
  have hfits := hsound.root_fits
  rw [Tableau.discardSearch_eq_self h.snapshot_eq] at hpool harena hwith hfits
  have hloaded := hfits.of_isLoadedWith hpool harena hwith
  have hconsistent := (hloaded.sound rfl).consistent
  have hready : model.searched = tableau.readied model.ready.searchSpace := by
    rw [searched, ready_of_not_loaded h.isLoaded_eq, hload]
    rfl
  have hdiscarded := Tableau.discardSearch_eq_self hsnapshot
  have hdictionary : model.searched.dictionary = tableau.dictionary := by
    rw [hready, Tableau.readied, hdiscarded]
  have harena' : model.searched.arena = tableau.arena := by
    rw [hready, Tableau.readied, hdiscarded]
  have hsearched : model.searched.IsSound := by
    apply (hloaded.sound rfl).of_eq hdictionary _ harena'
    rw [hready, Tableau.readied, hdiscarded]
  have hlookup (index : Nat) : model.searched.lookup? index = model.tableau.lookup? index := by
    rw [Tableau.lookup?, harena', harena, Tableau.lookup?]
  refine ⟨?_, rfl, rfl, hsearched, hlookup, ?_, ?_, ?_⟩
  · rw [hready, Tableau.readied, hdiscarded]
    exact hprecision
  · apply hfits.of_character hsearched.toHasSoundPool _ fun _ => hsearched
    intro index
    rw [Tableau.character?, hlookup, Tableau.character?]
  · rw [hdictionary]
    exact hfits.denotes_of_isLoadedWith hwith
  · intro index hindex
    rw [hdictionary]
    apply (hconsistent.apart index).resolve_right
    intro hnone
    have hcolumn : (tableau.dictionary.column? index).isSome :=
      (hwith.columns_list.isSome_position_iff index).2 hindex
    rw [hnone] at hcolumn
    exact absurd hcolumn (by simp)

namespace IsBuilt

variable {base : Tableau Rat}

theorem hasVariable_iff (h : model.IsBuilt base) (index : Nat) :
    base.dictionary.HasVariable index ↔
      index ∈ model.indices ∨ index ∈ model.constraints.keys := by
  rw [h.sound.consistent.hasVariable_iff, h.sound.mentions_iff, h.fits.known_iff]

theorem isPosed (h : model.IsBuilt base) : base.IsPosed model.searchSpace := by
  refine ⟨h.sound, ?_⟩
  intro index
  change index ∈ model.integers ↔ _
  rw [h.fits.mem_integers_iff, iff_and_self]
  intro hinteger
  have hdeclared := h.fits.mem_integers_iff.2 hinteger
  rw [h.fits.integers_eq] at hdeclared
  exact (h.hasVariable_iff index).2 (.inl (List.mem_filter.1 hdeclared).1)

theorem isFree_eq (h : model.IsBuilt base) (index : Nat) :
    base.isFree (some index) = model.tableau.isFree (some index) := by
  rw [Tableau.isFree, Option.bind_some, h.lookup?_eq, Tableau.isFree, Option.bind_some]

theorem cost_eq (h : model.IsBuilt base) (hx : base.dictionary.Satisfies x) :
    base.cost x = model.objectiveAt .required x :=
  h.denotes.objective_eq x ((h.denotes.satisfies_iff x).1 hx) .required

/-- Where the rows of the tableau hold, the slacks measure how far the constraints are
met. -/
theorem isFeasiblePoint_iff (h : model.IsBuilt base) (hx : base.dictionary.Satisfies x) :
    base.IsFeasiblePoint x ↔ model.IsMetWithin 0 x := by
  have hholds := (h.denotes.satisfies_iff x).1 hx
  constructor
  · rintro ⟨-, hadmits⟩
    constructor
    · intro constraint hconstraint
      have hslack := h.fits.slack_mem_keys hconstraint
      rw [(hholds constraint hconstraint).isMetWithin_iff, neg_zero]
      exact hadmits _ ((h.hasVariable_iff _).2 (.inr hslack)) (h.fits.slack_restricted hslack)
    · intro index hindex hrestricted
      rw [neg_zero]
      apply hadmits index ((h.hasVariable_iff index).2 (.inl hindex))
      rw [h.isFree_eq]
      exact hrestricted
  · rintro ⟨hconstraints, hvariables⟩
    refine ⟨hx, ?_⟩
    intro index hindex hrestricted
    rcases (h.hasVariable_iff index).1 hindex with hdeclared | hslack
    · rw [h.isFree_eq] at hrestricted
      have hvalue := hvariables index hdeclared hrestricted
      rwa [neg_zero] at hvalue
    · obtain ⟨constraint, hconstraint, rfl⟩ := h.fits.exists_of_mem_keys hslack
      have hmet := (hholds constraint hconstraint).isMetWithin_iff.1
        (hconstraints constraint hconstraint)
      rwa [neg_zero] at hmet

theorem isIntegralPoint_iff (h : model.IsBuilt base) (hx : base.dictionary.Satisfies x) :
    base.IsIntegralPoint x ↔ model.IsIntegralSolution x := by
  have hposed (index : Nat) : index ∈ model.integers ↔
      base.dictionary.HasVariable index ∧ base.isInteger (some index) = true :=
    h.isPosed.mem_integers_iff index
  constructor
  · intro hpoint
    refine ⟨(h.isFeasiblePoint_iff hx).1 hpoint.feasible, ?_⟩
    intro index hindex
    obtain ⟨hvariable, hinteger⟩ := (hposed index).1 hindex
    exact hpoint.whole index hvariable hinteger
  · intro hsolution
    refine ⟨(h.isFeasiblePoint_iff hx).2 hsolution.met, ?_⟩
    intro index hvariable hinteger
    exact hsolution.whole index ((hposed index).2 ⟨hvariable, hinteger⟩)

/-- Every integral solution of the model extends to an integral point of the tableau. -/
theorem exists_isIntegralPoint (h : model.IsBuilt base) (hx : model.IsIntegralSolution x) :
    ∃ y, base.IsIntegralPoint y ∧ base.cost y = model.objectiveAt .required x := by
  -- Only slacks are basic in a new tableau, so the declared variables keep their values.
  have hagree (index : Nat) (hindex : index ∈ model.indices) :
      base.dictionary.completed x index = x index := by
    rw [Dictionary.completed, h.row?_eq index hindex]
  have hsatisfies := Dictionary.satisfies_completed h.sound.consistent.isNamed x
  refine ⟨_, (h.isIntegralPoint_iff hsatisfies).2 ⟨⟨?_, ?_⟩, ?_⟩, ?_⟩
  · intro constraint hconstraint
    rw [Constraint.IsMetWithin, h.fits.valueAt_congr hconstraint hagree]
    exact hx.met.1 constraint hconstraint
  · intro index hindex hrestricted
    rw [hagree index hindex]
    exact hx.met.2 index hindex hrestricted
  · intro index hindex
    have hdeclared : index ∈ model.indices := by
      rw [h.fits.integers_eq] at hindex
      exact (List.mem_filter.1 hindex).1
    rw [hagree index hdeclared]
    exact hx.whole index hindex
  · rw [h.cost_eq hsatisfies, objectiveAt_of_agree hagree]

/-- What answers the tableau answers the model. -/
theorem optimal_of_isAnswer (h : model.IsBuilt base) {tolerance : Rat} {t : Tableau Rat}
    (hanswer : base.IsAnswer tolerance t) (hfeasible : t.isFeasible = true) :
    model.IsIntegralSolution t.dictionary.valueOf ∧
      t.evaluation =
        .finite (model.tableau.round (model.objectiveAt .required t.dictionary.valueOf)) ∧
      ∀ x, model.IsIntegralSolution x →
        model.tableau.round (model.objectiveAt .required t.dictionary.valueOf) ≤
          model.tableau.round (model.objectiveAt .required x) + tolerance * |t.rootEvaluation| := by
  obtain ⟨hpoint, hevaluation, hleast⟩ := hanswer.optimal hfeasible
  have hsatisfies := hpoint.feasible.1
  have hround := Tableau.round_eq h.precision_eq
  rw [h.cost_eq hsatisfies, hround] at hevaluation hleast
  refine ⟨(h.isIntegralPoint_iff hsatisfies).1 hpoint, hevaluation, ?_⟩
  intro x hx
  obtain ⟨y, hy, hcost⟩ := h.exists_isIntegralPoint hx
  rw [← hcost, ← hround (base.cost y)]
  exact hleast y hy

end IsBuilt

/-- With integer variables a solve is a search. -/
theorem solve_eq_ok_of_integers (h : model.IsSound) (hintegers : model.integers ≠ [])
    {effort : Effort} {solution : Solution Rat} {model' : Model Rat}
    (hsolve : solve effort model = .ok solution model') :
    ∃ kept t, Tableau.branchAndCut model.searchSpace effort model.searched = .ok kept t ∧
      model'.tableau = { t with arena := model'.tableau.arena } ∧
      solution.isFeasible = model'.tableau.isFeasible ∧
      solution.isBounded = model'.tableau.isBounded := by
  obtain ⟨honTableau, -, -, hsame⟩ := solve_eq h effort
  have hspace : model.ready.searchSpace = model.searchSpace := by
    rw [hsame]
    rfl
  have hempty : model.searchSpace.integers.isEmpty = false := List.isEmpty_eq_false_iff.2 hintegers
  rw [honTableau, onTableau, hspace, Tableau.solve_of_integers hempty, ← hspace] at hsolve
  rw [searched, ← hspace]
  cases hsearch : Tableau.branchAndCut model.ready.searchSpace effort
      (model.ready.tableau.readied model.ready.searchSpace) with
  | error fault t =>
    rw [bind_of_error hsearch] at hsolve
    exact absurd hsolve (by simp)
  | ok kept t =>
    rw [bind_of_ok hsearch] at hsolve
    injection hsolve with hsolution hmodel'
    rw [← hsolution, ← hmodel']
    exact ⟨kept, t, rfl, Tableau.updateValues_eq t _, rfl, rfl⟩

end Model

namespace Operation

/-- The first solve of a model with integer variables is right about them, on a run whose
tableaus are separated and whose nodes have crisp values: a model that is said to be
infeasible has no integral solution, and otherwise the final basis gives one.  It is best up
to the tolerance, and the evaluation is its rounded objective. -/
theorem isOptimal_after_search (precision : Rat) (options : Options Rat)
    (operations : List (Operation Rat))
    (hsolves : ∀ operation ∈ operations, operation.isSolve = false) (model model' : Model Rat)
    (hmodel : model = after (Model.empty precision options) operations)
    (hintegers : model.integers ≠ []) (htolerance : 0 ≤ model.options.tolerance)
    (htimeout : model.options.timeout = none) (effort : Effort) (solution : Solution Rat)
    (hsolve : Model.solve effort model = .ok solution model')
    (hbounded : solution.isBounded = true)
    (hclear : ∀ node ∈ model.searchNodes effort, node.IsClear model.searchSpace effort) :
    (solution.isFeasible = false → ∀ x, ¬ model.IsIntegralSolution x) ∧
      (solution.isFeasible = true →
        model.IsIntegralSolution model'.tableau.dictionary.valueOf ∧
        model'.tableau.evaluation = .finite (model.tableau.round
          (model.objectiveAt .required model'.tableau.dictionary.valueOf)) ∧
        ∀ x, model.IsIntegralSolution x →
          model.tableau.round (model.objectiveAt .required model'.tableau.dictionary.valueOf) ≤
            model.tableau.round (model.objectiveAt .required x) +
              model.options.tolerance * |model'.tableau.rootEvaluation|) := by
  obtain ⟨hsound, hunbuilt⟩ := isUnbuilt_after precision options hsolves
  rw [← hmodel] at hsound hunbuilt
  have hbuilt := hunbuilt.isBuilt_searched hsound
  obtain ⟨kept, t, hsearch, hfinal, hfeasible, hbounded'⟩ :=
    Model.solve_eq_ok_of_integers hsound hintegers hsolve
  have hends := Tableau.branchAndCut_answers hbuilt.isPosed hbuilt.snapshot_eq
    hbuilt.optimaReached_eq htimeout htolerance hclear
  rw [hsearch] at hends
  have hanswer : model.searched.IsAnswer model.options.tolerance model'.tableau := by
    rw [hbounded', hfinal] at hbounded
    rw [hfinal]
    exact ⟨(hends hbounded).infeasible, (hends hbounded).optimal⟩
  rw [hfeasible]
  refine ⟨?_, hbuilt.optimal_of_isAnswer hanswer⟩
  intro hinfeasible x hx
  obtain ⟨y, hy, -⟩ := hbuilt.exists_isIntegralPoint hx
  exact hanswer.infeasible hinfeasible y hy

/-- The relaxation of two integer variables under two bounds has its optimum at 15/4 and
5/4. -/
def dividedModel : Model Rat :=
  after (Model.empty 1e-9 { Options.standard with nodeSelection := .depthFirst })
    [.maximise,
      .addVariable ⟨5, none, true, false, .required⟩,
      .addVariable ⟨4, none, true, false, .required⟩,
      .atMost 5,
      .addTerm (.inequality 2) 1 0,
      .addTerm (.inequality 2) 1 1,
      .atMost 45,
      .addTerm (.inequality 3) 10 0,
      .addTerm (.inequality 3) 6 1]

theorem isOptimal_after_search_dividedModel :
    ∃ solution model', Model.solve ⟨8, 0, 8, fun _ => 0⟩ dividedModel = .ok solution model' ∧
      dividedModel.IsIntegralSolution model'.tableau.dictionary.valueOf ∧
      model'.tableau.evaluation = .finite (-23) ∧
      ∀ x, dividedModel.IsIntegralSolution x →
        -23 ≤ dividedModel.tableau.round (dividedModel.objectiveAt .required x) := by
  have hends : Ends (Model.solve ⟨8, 0, 8, fun _ => 0⟩ dividedModel)
      (fun solution model' => solution.isBounded = true ∧ solution.isFeasible = true ∧
        model'.tableau.evaluation = .finite (-23)) fun _ _ => False := by
    decide +kernel
  obtain ⟨solution, model', hsolve, hbounded, hfeasible, hevaluation⟩ := hends.exists_ok
  obtain ⟨hpoint, hvalue, hleast⟩ := (isOptimal_after_search _ _ _ (by decide) dividedModel model'
    rfl (by decide +kernel) (by decide +kernel) (by decide +kernel) _ solution hsolve hbounded
    (by decide +kernel)).2 hfeasible
  refine ⟨solution, model', hsolve, hpoint, hevaluation, ?_⟩
  intro x hx
  have htolerance : dividedModel.options.tolerance = 0 := by decide +kernel
  have hbound := hleast x hx
  rw [hevaluation] at hvalue
  rwa [← Extended.finite.inj hvalue, htolerance, zero_mul, add_zero] at hbound

end Operation

end MixedInteger
