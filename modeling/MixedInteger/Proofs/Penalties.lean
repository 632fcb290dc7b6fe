import Mathlib.Algebra.Order.Ring.Rat
import MixedInteger.Proofs.BasisInvariant
import MixedInteger.Proofs.Registry

/-!
# The penalties of relaxed constraints

A relaxation variable is declared with a weight and a priority, and its cost is stored for the
direction of the model at that time.  A change of direction turns the stored costs of those
relaxations around that a constraint still names as its own; a variable that was relaxed over,
or whose declaration was not completed, keeps the cost of the direction before.  An `Account`
follows the penalties along a run.  Main statement: the stored cost of every penalty is the one
the account says, so a new objective row charges the weight if a constraint names the variable,
and pays it out once the direction has changed without the variable.
-/

namespace MixedInteger

/-- Numbers with signs. -/
class SignedScalar (α : Type) [Scalar α] : Prop where
  neg_neg (value : α) : - -value = value
  one_mul (value : α) : 1 * value = value
  neg_one_mul (value : α) : -1 * value = -value

instance : SignedScalar Rat where
  neg_neg := neg_neg
  one_mul := one_mul
  neg_one_mul := neg_one_mul

/-- What a relaxation asked for: a weight on a variable at a priority. -/
structure Penalty (α : Type) where
  index : Nat
  weight : α
  priority : Priority
  /-- Whether the cost is stored for minimisation.  This is the direction of the model when the
  variable was declared, or when a constraint last named it as its relaxation. -/
  forMinimum : Bool
  deriving DecidableEq

namespace Penalty

variable {α : Type} [Scalar α]

def cost (penalty : Penalty α) : α :=
  if penalty.forMinimum then penalty.weight else -penalty.weight

/-- What a new objective row holds for the variable. -/
def entry (minimises : Bool) (penalty : Penalty α) : α :=
  if penalty.forMinimum = minimises then -penalty.weight else penalty.weight

/-- The penalty after a model has come about: the direction counts for those variables that a
constraint names. -/
def reviewed (model : Model α) (penalty : Penalty α) : Penalty α :=
  if penalty.index ∈ model.relaxations then { penalty with forMinimum := model.minimises }
  else penalty

structure Stands (penalty : Penalty α) (model : Model α) : Prop where
  declared : penalty.index ∈ model.indices
  stored : ∃ data, model.root.traits? penalty.index = some data ∧
    data.cost = penalty.cost ∧ data.priority = penalty.priority
  named : penalty.index ∈ model.relaxations → penalty.forMinimum = model.minimises

end Penalty

/-- A model with the penalties of those of its variables that relaxations declared. -/
structure Account (α : Type) where
  model : Model α
  penalties : List (Penalty α)

namespace Operation

variable {α : Type} [Scalar α]

/-- The penalties that an operation asks for: those of a relaxation, one for every variable that
the model has gained. -/
def newPenalties (model : Model α) (operation : Operation α) : List (Penalty α) :=
  match operation with
  | relax _ weight priority =>
    let gained := (operation.result model).indices.filter fun index => index ∉ model.indices
    gained.map fun index => ⟨index, weight, priority, model.minimises⟩
  | _ => []

/-- An operation gives no variable with a penalty another cost. -/
def Spares (penalties : List (Penalty α)) : Operation α → Prop
  | setCost _ index => ∀ penalty ∈ penalties, penalty.index ≠ index
  | _ => True

instance (penalties : List (Penalty α)) (operation : Operation α) :
    Decidable (operation.Spares penalties) :=
  match operation with
  | setCost _ index =>
    inferInstanceAs (Decidable (∀ penalty ∈ penalties, penalty.index ≠ index))
  | setOptions _ | minimise | maximise | addVariable _ | atMost _ | atLeast _ | equal _
  | addTerm _ _ _ | setCoefficient _ _ _ | setRhs _ _ | relax _ _ _ | removeConstraint _
  | removeVariable _ | solve _ => .isTrue trivial

end Operation

namespace Account

variable {α : Type} [Scalar α]

/-- The empty model owes nothing. -/
def opening (precision : α) (options : Options α) : Account α :=
  ⟨Model.empty precision options, []⟩

/-- Carries out an operation.  Penalties lapse with their variables. -/
def post (account : Account α) (operation : Operation α) : Account α where
  model := operation.result account.model
  penalties :=
    ((account.penalties ++ operation.newPenalties account.model).filter fun penalty =>
      penalty.index ∈ (operation.result account.model).indices).map
        (Penalty.reviewed (operation.result account.model))

def after (account : Account α) (operations : List (Operation α)) : Account α :=
  operations.foldl post account

def Spares : Account α → List (Operation α) → Prop
  | _, [] => True
  | account, operation :: rest =>
    operation.Spares account.penalties ∧ (account.post operation).Spares rest

instance decidableSpares (account : Account α) (operations : List (Operation α)) :
    Decidable (account.Spares operations) :=
  match operations with
  | [] => .isTrue trivial
  | operation :: rest =>
    have : Decidable ((account.post operation).Spares rest) := decidableSpares _ rest
    inferInstanceAs
      (Decidable (operation.Spares account.penalties ∧ (account.post operation).Spares rest))

theorem model_after (account : Account α) (operations : List (Operation α)) :
    (account.after operations).model = Operation.after account.model operations := by
  induction operations generalizing account with
  | nil => rfl
  | cons operation rest ih => exact ih (account.post operation)

end Account

namespace Penalty

variable {α : Type} [Scalar α] {penalty : Penalty α} {model model' : Model α}

/-! ## One operation -/

/-- Penalties that stand need no review. -/
theorem Stands.reviewed (h : penalty.Stands model) : (penalty.reviewed model).Stands model := by
  have hsame : penalty.reviewed model = penalty := by
    unfold Penalty.reviewed
    split
    · next hnamed => rw [← h.named hnamed]
    · rfl
  rw [hsame]
  exact h

theorem Stands.of_carries {marked : Nat → Prop} (h : penalty.Stands model)
    (hcarries : Model.Carries marked model model') (hindex : penalty.index ∈ model'.indices)
    (hmarked : marked penalty.index → penalty.forMinimum = model.minimises) :
    penalty.Stands model' := by
  obtain ⟨data, hdata, hstored⟩ := h.stored
  refine ⟨hindex, ⟨data, (hcarries.traits _ hindex).trans hdata, hstored⟩, ?_⟩
  intro hnamed
  rw [hcarries.minimises]
  exact (hcarries.relaxations _ hnamed).elim h.named hmarked

theorem Stands.of_declares {declaration : Model.Declaration α} {index : Nat}
    (h : penalty.Stands model) (hdeclares : Model.Declares declaration index model model') :
    penalty.Stands model' := by
  obtain ⟨data, hdata, hstored⟩ := h.stored
  refine ⟨?_, ⟨data, (hdeclares.traits _ h.declared).trans hdata, hstored⟩, ?_⟩
  · rw [hdeclares.indices]
    exact List.mem_append_left _ h.declared
  · rw [Model.relaxations, hdeclares.constraints, hdeclares.minimises]
    exact h.named

theorem Stands.withCost (h : penalty.Stands model) {index : Nat} (hindex : penalty.index ≠ index)
    (cost : α) : penalty.Stands (model.quiet.withCost index cost) := by
  have hroot : (model.quiet.withCost index cost).root =
      model.root.modifyVariable index fun data => { data with cost := cost } :=
    Model.root_eq rfl
  obtain ⟨data, hdata, hstored⟩ := h.stored
  refine ⟨h.declared, ⟨data, ?_, hstored⟩, h.named⟩
  rw [hroot, Tableau.traits?, Tableau.lookup?_modifyVariable, if_neg hindex]
  exact hdata

/-- The penalty of a new relaxation variable. -/
theorem stands_relaxation {index : Nat} {weight : α} {priority : Priority}
    (hdeclares : Model.Declares (model.relaxationDeclaration weight priority) index
      model.numbered model') : Stands ⟨index, weight, priority, model.minimises⟩ model' := by
  refine ⟨?_, ⟨_, congrArg (Option.map Variable.traits) hdeclares.declared, rfl, rfl⟩, ?_⟩
  · rw [hdeclares.indices]
    exact List.mem_append_right _ (List.mem_singleton.2 rfl)
  · intro _
    exact hdeclares.minimises.symm

end Penalty

/-! ## Changes of direction -/

theorem nodup_eraseDups (items : List Nat) : items.eraseDups.Nodup := by
  induction hlength : items.length using Nat.strong_induction_on generalizing items with
  | _ length ih =>
    cases items with
    | nil => simp
    | cons item rest =>
      rw [List.eraseDups_cons, List.nodup_cons]
      refine ⟨by simp, ih _ ?_ _ rfl⟩
      rw [← hlength, List.length_cons]
      exact Nat.lt_succ_of_le (List.length_filter_le ..)

section Directions

variable {α : Type} [Scalar α]

/-- The variable with the opposite cost. -/
def Variable.turned (data : Variable α) : Variable α :=
  { data with cost := -data.cost }

theorem Tableau.lookup?_foldl_turned {indices : List Nat} (hnodup : indices.Nodup)
    (t : Tableau α) (index : Nat) :
    (indices.foldl (fun t other => t.modifyVariable other Variable.turned) t).lookup? index =
      if index ∈ indices then (t.lookup? index).map Variable.turned else t.lookup? index := by
  induction indices generalizing t with
  | nil => rfl
  | cons first rest ih =>
    obtain ⟨hfirst, hrest⟩ := List.nodup_cons.1 hnodup
    rw [List.foldl_cons, ih hrest, Tableau.lookup?_modifyVariable]
    by_cases hindex : index = first
    · rw [hindex, if_neg hfirst, if_pos rfl, if_pos List.mem_cons_self]
    · simp [hindex]

/-- After a change of direction exactly the relaxations that constraints name are turned. -/
theorem Model.lookup?_setDirection {model : Model α} {minimises : Bool}
    (hchange : model.minimises ≠ minimises) (index : Nat) :
    (model.setDirection minimises).root.lookup? index =
      if index ∈ model.relaxations then (model.root.lookup? index).map Variable.turned
      else model.root.lookup? index := by
  have hother : (model.minimises == minimises) = false := by simpa using hchange
  let turned : Model α := { model.quiet with minimises := minimises, isLoaded := false }
  have hset : model.setDirection minimises = turned.negateRelaxationCosts := by
    rw [setDirection, hother]
    rfl
  have hroot : turned.negateRelaxationCosts.root = turned.negateRelaxationCosts.tableau :=
    root_eq (sameView_negateRelaxationCosts turned).snapshot
  rw [hset, hroot]
  exact Tableau.lookup?_foldl_turned (nodup_eraseDups _) model.root index

theorem Model.relaxations_setDirection (model : Model α) (minimises : Bool) :
    (model.setDirection minimises).relaxations = model.relaxations := by
  unfold setDirection
  split <;> rfl

theorem Model.indices_setDirection (model : Model α) (minimises : Bool) :
    (model.setDirection minimises).indices = model.indices := by
  unfold setDirection
  split <;> rfl

theorem Model.minimises_setDirection (model : Model α) (minimises : Bool) :
    (model.setDirection minimises).minimises = minimises := by
  unfold setDirection
  split
  · next hsame => exact beq_iff_eq.1 hsame
  · rfl

/-- A change of direction is followed by those penalties that constraints name. -/
theorem Penalty.Stands.setDirection [SignedScalar α] {penalty : Penalty α} {model : Model α}
    (h : penalty.Stands model) (minimises : Bool) :
    (penalty.reviewed (model.setDirection minimises)).Stands (model.setDirection minimises) := by
  by_cases hchange : model.minimises = minimises
  · have hsame : model.setDirection minimises = model := by
      rw [Model.setDirection, beq_iff_eq.2 hchange]
      rfl
    rw [hsame]
    exact h.reviewed
  · obtain ⟨data, hdata, hcost, hpriority⟩ := h.stored
    have hlookup := Model.lookup?_setDirection hchange penalty.index
    have hindices := Model.indices_setDirection model minimises
    have hminimises := Model.minimises_setDirection model minimises
    unfold Penalty.reviewed
    rw [Model.relaxations_setDirection] at *
    split
    · next hnamed =>
      rw [if_pos hnamed] at hlookup
      refine ⟨hindices ▸ h.declared, ⟨data.turned, ?_, ?_, hpriority⟩, fun _ => rfl⟩
      · rw [Tableau.traits?, hlookup, Option.map_map]
        rw [Tableau.traits?] at hdata
        obtain ⟨found, hfound, rfl⟩ := Option.map_eq_some_iff.1 hdata
        rw [hfound]
        rfl
      · change -data.cost = _
        rw [hcost, cost, cost, h.named hnamed, hminimises]
        cases hold : model.minimises <;> cases hnew : minimises <;>
          simp_all [SignedScalar.neg_neg]
    · next hunnamed =>
      rw [if_neg hunnamed] at hlookup
      refine ⟨hindices ▸ h.declared, ⟨data, ?_, hcost, hpriority⟩, ?_⟩
      · rw [Tableau.traits?, hlookup]
        exact hdata
      · rw [Model.relaxations_setDirection]
        exact fun hnamed => absurd hnamed hunnamed

end Directions

/-! ## Along runs -/

namespace Account

variable {α : Type} [Scalar α]

/-- The model of an account is orderly, and its penalties are what the model stores. -/
structure IsBalanced (account : Account α) : Prop where
  orderly : account.model.IsOrderly
  stands : ∀ penalty ∈ account.penalties, penalty.Stands account.model

section Steps

variable {account : Account α} {penalty : Penalty α}

theorem mem_post {operation : Operation α}
    (hpenalty : penalty ∈ (account.post operation).penalties) :
    ∃ before, (before ∈ account.penalties ∨ before ∈ operation.newPenalties account.model) ∧
      before.index ∈ (account.post operation).model.indices ∧
      penalty = before.reviewed (account.post operation).model := by
  obtain ⟨before, hbefore, rfl⟩ := List.mem_map.1 hpenalty
  obtain ⟨hmem, hindex⟩ := List.mem_filter.1 hbefore
  exact ⟨before, List.mem_append.1 hmem, of_decide_eq_true hindex, rfl⟩

/-- What an operation notes about variables leaves the other penalties as they are. -/
theorem stands_noted {operation : Operation α} (hbalanced : account.IsBalanced)
    (hspares : operation.Spares account.penalties) (hpenalty : penalty ∈ account.penalties)
    (hminimise : operation ≠ .minimise) (hmaximise : operation ≠ .maximise) :
    penalty.Stands (operation.noted account.model) := by
  have hstands := hbalanced.stands penalty hpenalty
  cases operation with
  | minimise => exact absurd rfl hminimise
  | maximise => exact absurd rfl hmaximise
  | setOptions options => exact ⟨hstands.declared, hstands.stored, hstands.named⟩
  | addVariable declaration =>
    exact hstands.of_declares (Model.declares_withVariable hbalanced.orderly declaration)
  | relax reference weight priority =>
    rw [Operation.noted]
    split
    · exact hstands
    · have hnumbered : penalty.Stands account.model.numbered :=
        ⟨hstands.declared, hstands.stored, hstands.named⟩
      exact hnumbered.of_declares
        (Model.declares_withVariable (Operation.numbered_orderly hbalanced.orderly) _)
  | setCost cost index =>
    rw [Operation.noted]
    split
    · exact hstands.withCost (hspares penalty hpenalty) cost
    · exact hstands
  | _ => exact hstands

/-- The variable that a relaxation gains stands for its penalty. -/
theorem stands_newPenalty {operation : Operation α} (horderly : account.model.IsOrderly)
    (hpenalty : penalty ∈ operation.newPenalties account.model) :
    penalty.Stands (operation.noted account.model) ∧
      penalty.forMinimum = (operation.noted account.model).minimises := by
  cases operation with
  | relax reference weight priority =>
    have hcarries := Operation.result_carries horderly (.relax reference weight priority)
    obtain ⟨index, hgained, rfl⟩ := List.mem_map.1 hpenalty
    obtain ⟨hindex, hnew⟩ := List.mem_filter.1 hgained
    have hindex := hcarries.indices index hindex
    have hnew : index ∉ account.model.indices := of_decide_eq_true hnew
    rw [Operation.noted] at hindex ⊢
    split at hindex
    · exact absurd hindex hnew
    · next hpriority =>
      rw [if_neg hpriority]
      have hdeclares := Model.declares_withVariable
        (Operation.numbered_orderly horderly)
        (account.model.relaxationDeclaration weight priority)
      have hequal := List.mem_singleton.1 ((List.mem_append.1 hindex).resolve_left hnew)
      rw [hequal]
      exact ⟨Penalty.stands_relaxation hdeclares, rfl⟩
  | _ => exact absurd hpenalty List.not_mem_nil

/-- Every operation that spares the penalties keeps an account balanced. -/
theorem IsBalanced.post [SignedScalar α] (hbalanced : account.IsBalanced)
    {operation : Operation α} (hspares : operation.Spares account.penalties) :
    (account.post operation).IsBalanced := by
  have hcarries := Operation.result_carries hbalanced.orderly operation
  refine ⟨hcarries.orderly, ?_⟩
  intro penalty hpenalty
  obtain ⟨before, hbefore, hindex, rfl⟩ := mem_post hpenalty
  have hcarried (hstands : before.Stands (operation.noted account.model))
      (hmarked : operation.Marks account.model before.index →
        before.forMinimum = (operation.noted account.model).minimises) :
      (before.reviewed (account.post operation).model).Stands (account.post operation).model :=
    (hstands.of_carries hcarries hindex hmarked).reviewed
  rcases hbefore with hold | hnew
  · have hstands := hbalanced.stands before hold
    by_cases hminimise : operation = .minimise
    · rw [hminimise]
      exact hstands.setDirection true
    · by_cases hmaximise : operation = .maximise
      · rw [hmaximise]
        exact hstands.setDirection false
      · apply hcarried (stands_noted hbalanced hspares hold hminimise hmaximise)
        -- the marked variable is new, so that none of the penalties so far is about it
        intro hmarks
        cases operation with
        | relax reference weight priority =>
          have hfresh := hbalanced.orderly.allocate_fresh.1
          rw [← show before.index = account.model.root.pool.allocate.1 from hmarks] at hfresh
          exact absurd hstands.declared hfresh
        | _ => exact hmarks.elim
  · obtain ⟨hstands, hdirection⟩ := stands_newPenalty hbalanced.orderly hnew
    exact hcarried hstands fun _ => hdirection

/-- Every run that spares the penalties keeps an account balanced. -/
theorem IsBalanced.after [SignedScalar α] {operations : List (Operation α)}
    (hbalanced : account.IsBalanced) (hspares : account.Spares operations) :
    (account.after operations).IsBalanced := by
  induction operations generalizing account with
  | nil => exact hbalanced
  | cons operation rest ih => exact ih (hbalanced.post hspares.1) hspares.2

end Steps

theorem opening_isBalanced (precision : α) (options : Options α) :
    (opening precision options).IsBalanced :=
  ⟨Model.empty_isOrderly precision options, fun _ hpenalty => absurd hpenalty List.not_mem_nil⟩

end Account

/-! ## What is stored and what is charged -/

namespace Model

variable {α : Type} [Scalar α] {model : Model α} {penalty : Penalty α}

def Stores (model : Model α) (penalty : Penalty α) (cost : α) : Prop :=
  ∃ data, model.lookup? penalty.index = some data ∧ data.cost = cost ∧
    data.priority = penalty.priority

/-- Building the tableau writes a number for the variable of a penalty into the objective row
of its priority. -/
def Loads (model : Model α) (penalty : Penalty α) (entry : α) : Prop :=
  ∃ loaded column, load model = .ok () loaded ∧
    loaded.tableau.dictionary.column? penalty.index = some column ∧
    Dictionary.entryOf (loaded.tableau.dictionary.objectiveRow penalty.priority) column = entry

theorem stores_of_stands (h : penalty.Stands model) : model.Stores penalty penalty.cost := by
  obtain ⟨_, hdata, hcost, hpriority⟩ := h.stored
  obtain ⟨data, hlookup, rfl⟩ := Option.map_eq_some_iff.1 hdata
  have hknown : (model.tableau.discardSearch.lookup? penalty.index).isSome :=
    Option.isSome_of_eq_some hlookup
  refine ⟨data, ?_, hcost, hpriority⟩
  rw [lookup?, if_pos (List.contains_iff_mem.2 h.declared),
    ← Tableau.lookup?_discardSearch_of_isSome hknown]
  exact hlookup

/-- The orientation of an objective row, applied to a stored cost. -/
theorem oriented_cost [SignedScalar α] (penalty : Penalty α) (minimises : Bool) :
    (if minimises then -1 else 1) * penalty.cost = penalty.entry minimises := by
  unfold Penalty.cost Penalty.entry
  cases minimises <;> cases penalty.forMinimum <;>
    simp [SignedScalar.one_mul, SignedScalar.neg_one_mul, SignedScalar.neg_neg]

theorem loads_of_stands [SignedScalar α] (horderly : model.IsOrderly)
    (h : penalty.Stands model) : model.Loads penalty (penalty.entry model.minimises) := by
  obtain ⟨tableau, hload, -, -, -, -, hwith⟩ := horderly.load_eq_ok
  obtain ⟨p, hposition, hp⟩ := hwith.columns_list.exists_position h.declared
  obtain ⟨_, hdata, hcost, hpriority⟩ := h.stored
  obtain ⟨data, hlookup, rfl⟩ := Option.map_eq_some_iff.1 hdata
  have hcost : data.cost = penalty.cost := hcost
  have hpriority : data.priority = penalty.priority := hpriority
  refine ⟨_, p + 1, hload, hposition, ?_⟩
  rw [hwith.cost_eq, Tableau.loadedCost, hp, Option.bind_some, hlookup]
  dsimp only
  rw [if_pos (by rw [hpriority]), hcost, oriented_cost]

end Model

namespace Operation

variable {α : Type} [Scalar α]

/-- Along every run that gives no relaxation variable another cost, a variable that a
relaxation declared is stored with its penalty as long as it is part of the model, and a new
objective row holds it accordingly.  If a constraint names the variable as its relaxation, the
stored cost follows the direction of the model, and the row charges the weight. -/
theorem penalises_after_run [SignedScalar α] (precision : α) (options : Options α)
    (operations : List (Operation α))
    (hspares : (Account.opening precision options).Spares operations) (model : Model α)
    (hmodel : model = after (Model.empty precision options) operations) (penalty : Penalty α)
    (hpenalty : penalty ∈ ((Account.opening precision options).after operations).penalties) :
    model.Stores penalty penalty.cost ∧
      model.Loads penalty (penalty.entry model.minimises) ∧
      (penalty.index ∈ model.relaxations →
        model.Stores penalty (if model.minimises then penalty.weight else -penalty.weight) ∧
        model.Loads penalty (-penalty.weight)) := by
  have hbalanced := (Account.opening_isBalanced precision options).after hspares
  have hstands := hbalanced.stands penalty hpenalty
  have horderly := hbalanced.orderly
  have hsame : ((Account.opening precision options).after operations).model = model :=
    (Account.model_after ..).trans hmodel.symm
  rw [hsame] at hstands horderly
  have hstores := Model.stores_of_stands hstands
  have hloads := Model.loads_of_stands horderly hstands
  refine ⟨hstores, hloads, ?_⟩
  intro hnamed
  have hdirection := hstands.named hnamed
  rw [Penalty.cost, hdirection] at hstores
  rw [Penalty.entry, if_pos hdirection] at hloads
  exact ⟨hstores, hloads⟩

/-- A bound of 4 is relaxed, and the direction changes before and after a solve. -/
def relaxedRun : List (Operation Rat) :=
  [.addVariable ⟨1, none, false, false, .required⟩,
    .atMost 4,
    .addTerm (.inequality 1) 1 0,
    .relax (.inequality 1) 3 ⟨2⟩,
    .maximise,
    .solve ⟨8, 0, 8, fun _ => 0⟩,
    .minimise,
    .setCost 5 0,
    .maximise]

theorem penalises_after_relaxedRun :
    (after (Model.empty 1e-9 Options.standard) relaxedRun).Stores ⟨2, 3, ⟨2⟩, false⟩ (-3) ∧
      (after (Model.empty 1e-9 Options.standard) relaxedRun).Loads ⟨2, 3, ⟨2⟩, false⟩ (-3) := by
  obtain ⟨hstores, hloads, -⟩ := penalises_after_run 1e-9 Options.standard relaxedRun
    (by decide +kernel) _ rfl ⟨2, 3, ⟨2⟩, false⟩ (by decide +kernel)
  have hmaximises : (after (Model.empty 1e-9 Options.standard) relaxedRun).minimises = false := by
    decide +kernel
  rw [hmaximises] at hloads
  exact ⟨hstores, hloads⟩

/-- A bound is relaxed twice before the direction changes. -/
def twiceRelaxedRun : List (Operation Rat) :=
  [.addVariable ⟨1, none, false, false, .required⟩,
    .atMost 10,
    .addTerm (.inequality 1) 1 0,
    .atMost 4,
    .addTerm (.inequality 2) 1 0,
    .relax (.inequality 2) 1 ⟨1⟩,
    .relax (.inequality 2) 1 ⟨1⟩,
    .maximise]

def twiceRelaxedModel : Model Rat :=
  after (Model.empty 1e-9 Options.standard) twiceRelaxedRun

/-- The constraint names the second relaxation only, so the first one pays out its weight
when the model maximises. -/
theorem not_penalises_after_twiceRelaxedRun :
    (Account.opening 1e-9 Options.standard).Spares twiceRelaxedRun ∧
      ∃ penalty ∈ ((Account.opening 1e-9 Options.standard).after twiceRelaxedRun).penalties,
        ¬ twiceRelaxedModel.Stores penalty
          (if twiceRelaxedModel.minimises then penalty.weight else -penalty.weight) ∧
        ¬ twiceRelaxedModel.Loads penalty (-penalty.weight) := by
  have hstored : (twiceRelaxedModel.lookup? 3).map Variable.cost = some 1 := by decide +kernel
  have hmaximises : twiceRelaxedModel.minimises = false := by decide +kernel
  have hends : Ends (Model.load twiceRelaxedModel)
      (fun _ loaded => loaded.tableau.dictionary.column? 3 = some 2 ∧
        Dictionary.entryOf (loaded.tableau.dictionary.objectiveRow ⟨1⟩) 2 = 1)
      fun _ _ => False := by
    decide +kernel
  refine ⟨by decide +kernel, ⟨3, 1, ⟨1⟩, true⟩, by decide +kernel, ?_, ?_⟩
  · rw [hmaximises]
    rintro ⟨data, hdata, hcost, -⟩
    rw [hdata, Option.map_some, hcost] at hstored
    exact absurd hstored (by decide)
  · rintro ⟨loaded, column, hload, hcolumn, hentry⟩
    rw [hload] at hends
    obtain ⟨hplace, hpaid⟩ := hends
    have hsame : column = 2 := Option.some.inj (hcolumn.symm.trans hplace)
    rw [hsame] at hentry
    exact absurd (hentry.symm.trans hpaid) (by decide)

end Operation

end MixedInteger
