import Mathlib.Algebra.BigOperators.Group.List.Basic
import Mathlib.Algebra.BigOperators.Ring.List
import Mathlib.Algebra.Module.NatInt
import MixedInteger.Proofs.EditMeaning
import MixedInteger.Proofs.ModelSteps

/-!
# What a model means

Over the rationals a model is a system of equations between its variables and the
slacks of its constraints, and has one objective for each priority.  A dictionary
denotes a model if it states the same equations and, where they hold, the same
objectives.  The dictionary that is built from scratch denotes its model.
-/

namespace MixedInteger

namespace Constraint

def valueAt (constraint : Constraint Rat) (x : Nat → Rat) : Rat :=
  (constraint.terms.map fun term => term.coefficient * x term.index).sum

/-- The slack takes up the difference between the two sides. -/
def Holds (constraint : Constraint Rat) (x : Nat → Rat) : Prop :=
  constraint.sign * constraint.valueAt x + x constraint.slack =
    constraint.sign * constraint.rhs

end Constraint

def Tableau.costIn (t : Tableau Rat) (priority : Priority) (index : Nat) : Rat :=
  match t.lookup? index with
  | some data => if priority.level = data.priority.level then data.cost else 0
  | none => 0

namespace Model

def Solves (model : Model Rat) (x : Nat → Rat) : Prop :=
  ∀ constraint ∈ model.constraints.values, constraint.Holds x

/-- The objective of a priority, in minimisation orientation. -/
def objectiveAt (model : Model Rat) (priority : Priority) (x : Nat → Rat) : Rat :=
  (if model.minimises then 1 else -1) *
    (model.indices.map fun index => model.tableau.costIn priority index * x index).sum

end Model

/-- A dictionary states the constraints of a model and, where these hold, its
objectives. -/
structure Dictionary.Denotes (d : Dictionary Rat) (model : Model Rat) : Prop where
  satisfies_iff : ∀ x, d.Satisfies x ↔ model.Solves x
  objective_eq : ∀ x, model.Solves x → ∀ priority,
    d.objectiveAt priority x = model.objectiveAt priority x

/-! ## Constraints -/

namespace Constraint

variable {constraint : Constraint Rat} {indices : List Nat} {slack index : Nat} {x : Nat → Rat}

theorem valueAt_congr {y : Nat → Rat}
    (hterms : ∀ term ∈ constraint.terms, y term.index = x term.index) :
    constraint.valueAt y = constraint.valueAt x := by
  rw [valueAt, valueAt]
  congr 1
  apply List.map_congr_left
  intro term hterm
  rw [hterms term hterm]

/-- The terms do not mention a variable that is not declared. -/
theorem valueAt_update (hterms : ∀ term ∈ constraint.terms, term.index ∈ indices)
    (hindex : index ∉ indices) (x : Nat → Rat) (value : Rat) :
    constraint.valueAt (Function.update x index value) = constraint.valueAt x := by
  apply valueAt_congr
  intro term hterm
  apply Function.update_of_ne
  intro heq
  rw [← heq] at hindex
  exact hindex (hterms term hterm)

theorem holds_update (hfits : constraint.Fits indices slack) (hindex : index ∉ indices)
    (hne : slack ≠ index) (x : Nat → Rat) (value : Rat) :
    constraint.Holds (Function.update x index value) ↔ constraint.Holds x := by
  rw [Holds, Holds, valueAt_update hfits.terms_mem hindex, hfits.slack_eq,
    Function.update_of_ne hne]

theorem sum_writeTerm (terms : List (Term Rat)) (index : Nat) (coefficient : Rat)
    (x : Nat → Rat) :
    ((writeTerm terms index coefficient).map fun term => term.coefficient * x term.index).sum =
      (terms.map fun term => term.coefficient * x term.index).sum +
        (coefficient - ((terms.find? fun term => term.index == index).map
          Term.coefficient).getD 0) * x index := by
  induction terms with
  | nil => simp [writeTerm]
  | cons term rest ih =>
    rw [writeTerm]
    by_cases hterm : term.index = index
    · rw [if_pos (by simpa using hterm), List.find?_cons_of_pos (by simpa using hterm),
        List.map_cons, List.map_cons, List.sum_cons, List.sum_cons, hterm, Option.map_some,
        Option.getD_some]
      ring
    · rw [if_neg (by simpa using hterm), List.find?_cons_of_neg (by simpa using hterm),
        List.map_cons, List.map_cons, List.sum_cons, List.sum_cons, ih]
      ring

theorem valueAt_setCoefficient (constraint : Constraint Rat) (index : Nat) (coefficient : Rat)
    (x : Nat → Rat) :
    (constraint.setCoefficient index coefficient).valueAt x =
      constraint.valueAt x + Model.differenceTo constraint index coefficient * x index := by
  have hdifference : Model.differenceTo constraint index coefficient =
      coefficient - (constraint.coefficientOf? index).getD 0 := by
    rw [Model.differenceTo]
    cases constraint.coefficientOf? index with
    | none => exact (sub_zero coefficient).symm
    | some present => rfl
  rw [hdifference]
  exact sum_writeTerm constraint.terms index coefficient x

theorem valueAt_forget (constraint : Constraint Rat) (index : Nat) (x : Nat → Rat) :
    (constraint.forget index).valueAt x = constraint.valueAt (Function.update x index 0) := by
  rw [valueAt, valueAt, forget]
  induction constraint.terms with
  | nil => rfl
  | cons term rest ih =>
    by_cases hterm : term.index = index
    · rw [List.filter_cons_of_neg (by simpa using hterm), ih, List.map_cons, List.sum_cons, hterm,
        Function.update_self, mul_zero, zero_add]
    · rw [List.filter_cons_of_pos (by simpa using hterm), List.map_cons, List.map_cons,
        List.sum_cons, List.sum_cons, ih, Function.update_of_ne hterm]

theorem orientBound_eq (constraint : Constraint Rat) (difference : Rat) :
    Tableau.orientBound constraint.isUpperBound difference = constraint.sign * difference :=
  Tableau.orientBound_eq constraint.isUpperBound difference

/-- A changed coefficient amounts to another value of the slack. -/
theorem holds_setCoefficient (hfits : constraint.Fits indices slack) (hslack : slack ∉ indices)
    (index : Nat) (coefficient : Rat) (x : Nat → Rat) :
    (constraint.setCoefficient index coefficient).Holds x ↔
      constraint.Holds (Function.update x slack (x slack +
        Tableau.orientBound constraint.isUpperBound
          (Model.differenceTo constraint index coefficient) * x index)) := by
  have hchanged : (constraint.setCoefficient index coefficient).Holds x ↔
      constraint.sign * (constraint.setCoefficient index coefficient).valueAt x +
        x constraint.slack = constraint.sign * constraint.rhs := Iff.rfl
  rw [hchanged, Holds, valueAt_setCoefficient, valueAt_update hfits.terms_mem hslack,
    hfits.slack_eq, Function.update_self, orientBound_eq]
  ring_nf

theorem holds_rhs (hfits : constraint.Fits indices slack) (hslack : slack ∉ indices)
    (rhs : Rat) (x : Nat → Rat) :
    Holds { constraint with rhs := rhs } x ↔
      constraint.Holds (Function.update x slack (x slack -
        Tableau.orientBound constraint.isUpperBound (rhs - constraint.rhs))) := by
  have hchanged : Holds { constraint with rhs := rhs } x ↔
      constraint.sign * constraint.valueAt x + x constraint.slack =
        constraint.sign * rhs := Iff.rfl
  rw [hchanged, Holds, valueAt_update hfits.terms_mem hslack, hfits.slack_eq,
    Function.update_self, orientBound_eq]
  constructor
  · intro hx
    linarith
  · intro hx
    linarith

end Constraint

/-! ## Models -/

namespace Model

variable {model : Model Rat} {t : Tableau Rat} {slack index : Nat} {x : Nat → Rat}

theorem solves_iff : model.Solves x ↔ ∀ entry ∈ model.constraints, entry.2.Holds x := by
  rw [Solves, OrderedMap.values, List.forall_mem_map]

/-- The terms of the constraints depend on the declared variables. -/
theorem Fits.valueAt_congr (h : model.Fits t) {constraint : Constraint Rat}
    (hconstraint : constraint ∈ model.constraints.values) {y : Nat → Rat}
    (hxy : ∀ index ∈ model.indices, y index = x index) :
    constraint.valueAt y = constraint.valueAt x := by
  obtain ⟨entry, hentry, rfl⟩ := List.mem_map.1 hconstraint
  apply Constraint.valueAt_congr
  intro term hterm
  exact hxy _ ((h.constraint_fits entry hentry).terms_mem term hterm)

/-- Objectives depend on the direction, the declared variables and their costs. -/
theorem objectiveAt_congr {model' : Model Rat} (hminimises : model'.minimises = model.minimises)
    (hindices : model'.indices = model.indices) {priority : Priority}
    (hcosts : ∀ index ∈ model.indices,
      model'.tableau.costIn priority index = model.tableau.costIn priority index) (x : Nat → Rat) :
    model'.objectiveAt priority x = model.objectiveAt priority x := by
  rw [objectiveAt, objectiveAt, hminimises, hindices]
  congr 2
  apply List.map_congr_left
  intro index hindex
  rw [hcosts index hindex]

/-- Objectives do not mention a variable that is not declared. -/
theorem objectiveAt_update (hindex : index ∉ model.indices) (priority : Priority) (x : Nat → Rat)
    (value : Rat) :
    model.objectiveAt priority (Function.update x index value) =
      model.objectiveAt priority x := by
  rw [objectiveAt, objectiveAt]
  congr 2
  apply List.map_congr_left
  intro other hother
  have hne : other ≠ index := by
    intro heq
    rw [heq] at hother
    exact hindex hother
  rw [Function.update_of_ne hne]

theorem costIn_register {t : Tableau Rat} {make : Nat → Variable Rat}
    (hmake : (make t.pool.allocate.1).index = t.pool.allocate.1)
    (hne : index ≠ t.pool.allocate.1) (priority : Priority) :
    (t.register make).2.costIn priority index = t.costIn priority index := by
  rw [Tableau.costIn, Tableau.lookup?_register hmake, if_neg hne, Tableau.costIn]

theorem ne_allocate (h : model.IsQuiet) (hindex : index ∈ model.indices) :
    index ≠ model.tableau.pool.allocate.1 := by
  intro heq
  rw [heq] at hindex
  exact h.allocate_fresh.1 hindex

theorem costIn_withVariable (declaration : Declaration Rat) (priority : Priority) (index : Nat) :
    (model.withVariable declaration).tableau.costIn priority index =
      (model.tableau.register declaration.toVariable).2.costIn priority index := by
  rw [withVariable]
  simp only
  split <;> rfl

/-- A new variable adds its cost to the objective of its priority. -/
theorem objectiveAt_withVariable (h : model.IsQuiet) (declaration : Declaration Rat)
    (priority : Priority) (x : Nat → Rat) :
    (model.withVariable declaration).objectiveAt priority x =
      model.objectiveAt priority x - if priority.level = declaration.priority.level then
        Tableau.orientCost model.minimises declaration.cost *
          x model.tableau.pool.allocate.1 else 0 := by
  have hmake : (declaration.toVariable model.tableau.pool.allocate.1).index =
      model.tableau.pool.allocate.1 := rfl
  have hnew : (model.withVariable declaration).tableau.costIn priority
      model.tableau.pool.allocate.1 =
        if priority.level = declaration.priority.level then declaration.cost else 0 := by
    rw [costIn_withVariable, Tableau.costIn, Tableau.lookup?_register hmake, if_pos rfl]
    rfl
  have hold : (model.indices.map fun index =>
      (model.withVariable declaration).tableau.costIn priority index * x index) =
        model.indices.map fun index => model.tableau.costIn priority index * x index := by
    apply List.map_congr_left
    intro index hindex
    rw [costIn_withVariable, costIn_register hmake (ne_allocate h hindex)]
  have hall : (model.withVariable declaration).objectiveAt priority x =
      (if model.minimises then 1 else -1) *
        ((model.indices ++ [model.tableau.pool.allocate.1]).map fun index =>
          (model.withVariable declaration).tableau.costIn priority index * x index).sum := rfl
  rw [hall, List.map_append, List.sum_append, hold, List.map_singleton, List.sum_singleton, hnew,
    objectiveAt, Tableau.orientCost]
  split <;> split <;> ring

theorem objectiveAt_withInequality (h : model.IsQuiet) (rhs : Rat) (isUpperBound : Bool)
    (priority : Priority) (x : Nat → Rat) :
    (model.withInequality rhs isUpperBound).objectiveAt priority x =
      model.objectiveAt priority x := by
  refine objectiveAt_congr ?_ ?_ ?_ x
  · rfl
  · rfl
  · intro index hindex
    have hcost : (model.withInequality rhs isUpperBound).tableau.costIn priority index =
        model.tableau.registerSlack.2.costIn priority index := by
      rw [withInequality]
      simp only
      split <;> rfl
    rw [hcost]
    exact costIn_register (by rfl) (ne_allocate h hindex) priority

/-- Another cost of a variable, oriented like the objective rows. -/
theorem objectiveAt_withCost (hnodup : model.indices.Nodup) (hindex : index ∈ model.indices)
    {data : Variable Rat} (hdata : model.tableau.lookup? index = some data) (cost : Rat)
    (priority : Priority) (x : Nat → Rat) :
    (model.withCost index cost).objectiveAt priority x =
      model.objectiveAt priority x - if priority.level = data.priority.level then
        Tableau.orientCost model.minimises (cost - data.cost) * x index else 0 := by
  have hcost (other : Nat) : (model.withCost index cost).tableau.costIn priority other * x other =
      model.tableau.costIn priority other * x other + if other = index then
        (if priority.level = data.priority.level then cost - data.cost else 0) * x other
        else 0 := by
    have hlookup := Tableau.lookup?_modifyVariable model.tableau index other
      fun data => { data with cost := cost }
    rw [Tableau.costIn, withCost, hlookup]
    by_cases heq : other = index
    · rw [if_pos heq, if_pos heq, heq, hdata, Option.map_some, Tableau.costIn, hdata]
      simp only
      split <;> ring
    · rw [if_neg heq, if_neg heq, add_zero]
      rfl
  have hall : (model.withCost index cost).objectiveAt priority x =
      (if model.minimises then 1 else -1) * (model.indices.map fun other =>
        (model.withCost index cost).tableau.costIn priority other * x other).sum := rfl
  rw [hall, List.map_congr_left fun other _ => hcost other, List.sum_map_add,
    List.sum_map_ite_eq, List.count_eq_one_of_mem hnodup hindex, one_smul, sub_zero,
    List.sum_map_zero, add_zero, objectiveAt, Tableau.orientCost]
  split <;> split <;> ring

/-- The constraints that are not changed do not mention the slack. -/
theorem solves_modify (h : model.Fits t) (hslack : slack ∈ model.constraints.keys)
    {change : Constraint Rat → Constraint Rat} {value : Rat}
    (hchange : ∀ constraint, (slack, constraint) ∈ model.constraints →
      ((change constraint).Holds x ↔ constraint.Holds (Function.update x slack value))) :
    Solves { model with constraints := model.constraints.modify slack change } x ↔
      model.Solves (Function.update x slack value) := by
  have hundeclared : slack ∉ model.indices := fun hmem => h.apart slack hmem hslack
  rw [solves_iff, solves_iff, OrderedMap.modify, List.forall_mem_map]
  apply forall₂_congr
  intro entry hentry
  by_cases hkey : entry.1 = slack
  · rw [if_pos (by simpa using hkey)]
    apply hchange
    rw [← hkey]
    exact hentry
  · rw [if_neg (by simpa using hkey),
      Constraint.holds_update (h.constraint_fits entry hentry) hundeclared hkey]

theorem solves_withConstraint (h : model.Fits t) {constraint constraint' : Constraint Rat}
    (hsome : model.constraint? slack = some constraint) {value : Rat}
    (hholds : constraint'.Holds x ↔ constraint.Holds (Function.update x slack value)) :
    (model.withConstraint slack constraint').Solves x ↔
      model.Solves (Function.update x slack value) := by
  apply solves_modify h (OrderedMap.mem_keys_of_get? hsome)
  intro other hother
  rw [OrderedMap.eq_of_mem h.slacks_nodup hother (OrderedMap.mem_of_get? hsome)]
  exact hholds

theorem solves_withInequality (h : model.IsQuiet) (rhs : Rat) (isUpperBound : Bool) :
    (model.withInequality rhs isUpperBound).Solves x ↔
      model.Solves x ∧ x model.tableau.pool.allocate.1 = boundSign isUpperBound * rhs := by
  have hbound (slack : Nat) : (Constraint.bound slack rhs isUpperBound).Holds x ↔
      x slack = boundSign isUpperBound * rhs := by
    change boundSign isUpperBound * 0 + x slack = _ ↔ _
    rw [mul_zero, zero_add]
    exact Iff.rfl
  rw [solves_iff, solves_iff, withInequality,
    OrderedMap.insert_of_not_mem h.allocate_fresh.2, List.forall_mem_append,
    List.forall_mem_singleton, hbound]

theorem solves_withoutConstraint (h : model.Fits t) {constraint : Constraint Rat}
    (hsome : model.constraint? slack = some constraint) :
    (model.withoutConstraint slack).Solves x ↔
      ∃ value, model.Solves (Function.update x slack value) := by
  have hslack := OrderedMap.mem_keys_of_get? hsome
  have hfits := h.constraint_fits _ (OrderedMap.mem_of_get? hsome)
  have hundeclared : slack ∉ model.indices := fun hmem => h.apart slack hmem hslack
  have hother (value : Rat) {entry : Nat × Constraint Rat} (hentry : entry ∈ model.constraints)
      (hne : entry.1 ≠ slack) : entry.2.Holds (Function.update x slack value) ↔ entry.2.Holds x :=
    Constraint.holds_update (h.constraint_fits entry hentry) hundeclared hne x value
  constructor
  · intro hx
    rw [solves_iff] at hx
    use constraint.sign * constraint.rhs - constraint.sign * constraint.valueAt x
    rw [solves_iff]
    intro entry hentry
    by_cases hkey : entry.1 = slack
    · have hsame : entry.2 = constraint := by
        apply OrderedMap.eq_of_mem h.slacks_nodup _ (OrderedMap.mem_of_get? hsome)
        rw [← hkey]
        exact hentry
      rw [hsame, Constraint.Holds, Constraint.valueAt_update hfits.terms_mem hundeclared,
        hfits.slack_eq, Function.update_self]
      ring
    · rw [hother _ hentry hkey]
      exact hx entry (OrderedMap.mem_erase_iff.2 ⟨hentry, hkey⟩)
  · intro hx
    obtain ⟨value, hvalue⟩ := hx
    rw [solves_iff] at hvalue ⊢
    intro entry hentry
    obtain ⟨hmem, hne⟩ := OrderedMap.mem_erase_iff.1 hentry
    rw [← hother value hmem hne]
    exact hvalue entry hmem

theorem solves_withoutVariable (h : model.Fits t) (hindex : index ∈ model.indices) :
    (model.withoutVariable index).Solves x ↔ model.Solves (Function.update x index 0) := by
  rw [solves_iff, solves_iff, withoutVariable, List.forall_mem_map]
  apply forall₂_congr
  intro entry hentry
  have hne : entry.2.slack ≠ index := by
    rw [(h.constraint_fits entry hentry).slack_eq]
    intro heq
    apply h.apart index hindex
    rw [← heq]
    exact List.mem_map_of_mem hentry
  have hforget : (entry.2.forget index).Holds x ↔
      entry.2.sign * (entry.2.forget index).valueAt x + x entry.2.slack =
        entry.2.sign * entry.2.rhs := Iff.rfl
  rw [hforget, Constraint.Holds, Constraint.valueAt_forget, Function.update_of_ne hne]

theorem sum_erase {indices : List Nat} (hindex : index ∈ indices) (hnodup : indices.Nodup)
    (costs : Nat → Rat) (x : Nat → Rat) :
    ((indices.erase index).map fun other => costs other * x other).sum =
      (indices.map fun other => costs other * Function.update x index 0 other).sum := by
  have hsum := (List.perm_cons_erase hindex).map fun other =>
    costs other * Function.update x index 0 other
  rw [hsum.sum_eq, List.map_cons, List.sum_cons, Function.update_self, mul_zero, zero_add]
  congr 1
  apply List.map_congr_left
  intro other hother
  rw [Function.update_of_ne ((List.Nodup.mem_erase_iff hnodup).1 hother).1]

theorem objectiveAt_withoutVariable (h : model.Fits t) (hindex : index ∈ model.indices)
    (priority : Priority) (x : Nat → Rat) :
    (model.withoutVariable index).objectiveAt priority x =
      model.objectiveAt priority (Function.update x index 0) := by
  have hsum := sum_erase hindex h.indices_nodup (model.tableau.costIn priority) x
  rw [objectiveAt, objectiveAt, ← hsum]
  rfl

end Model

/-! ## Dictionaries built from scratch -/

/-- A sum over positions is a sum over the list. -/
theorem sum_range_getElem? (f : Option Nat → Rat) (items : List Nat) :
    ∑ p ∈ Finset.range items.length, f items[p]? = (items.map fun item => f (some item)).sum := by
  induction items with
  | nil => rfl
  | cons item rest ih =>
    rw [List.length_cons, Finset.sum_range_succ', List.map_cons, List.sum_cons, ← ih, add_comm]
    rfl

theorem sum_coefficients {indices : List Nat} (hindices : indices.Nodup) {terms : List (Term Rat)}
    (hterms : ∀ term ∈ terms, term.index ∈ indices) (hnodup : (terms.map Term.index).Nodup)
    (x : Nat → Rat) :
    (indices.map fun index =>
      ((terms.find? fun term => term.index == index).map Term.coefficient).getD 0 *
        x index).sum =
      (terms.map fun term => term.coefficient * x term.index).sum := by
  induction terms with
  | nil => simp
  | cons term rest ih =>
    rw [List.map_cons, List.nodup_cons] at hnodup
    have hterm : term.index ∈ indices := hterms term List.mem_cons_self
    have hrest := ih (fun other hother => hterms other (List.mem_cons_of_mem _ hother)) hnodup.2
    -- A term counts for its own variable, which has no other.
    have hsplit : ∀ index ∈ indices,
        (((term :: rest).find? fun term => term.index == index).map Term.coefficient).getD 0 *
            x index =
          (if index = term.index then term.coefficient * x index else 0) +
            ((rest.find? fun term => term.index == index).map Term.coefficient).getD 0 *
              x index := by
      intro index _
      by_cases heq : index = term.index
      · have hnone : rest.find? (fun term => term.index == index) = none := by
          rw [List.find?_eq_none]
          intro other hother hindex
          apply hnodup.1
          rw [← heq, ← beq_iff_eq.1 hindex]
          exact List.mem_map_of_mem hother
        rw [List.find?_cons_of_pos (by simpa using heq.symm), hnone, if_pos heq]
        simp
      · rw [List.find?_cons_of_neg (by simpa using Ne.symm heq), if_neg heq, zero_add]
    rw [List.map_congr_left hsplit, List.sum_map_add, hrest, List.map_cons, List.sum_cons,
      List.sum_map_ite_eq, List.count_eq_one_of_mem hindices hterm, one_smul, sub_zero,
      List.sum_map_zero, add_zero]

namespace Tableau.IsLoadedWith

variable {known : Nat → Option (Variable Rat)} {minimises : Bool} {indices : List Nat}
  {constraints : List (Constraint Rat)} {d : Dictionary Rat}

/-- A loaded row lists its coefficients in the order of the variables. -/
theorem rowValue_eq {height : Nat}
    (h : IsLoadedWith known minimises height (indices.length + 1) indices constraints d)
    {row : Array Rat} (coefficient : Nat → Rat)
    (hrow : ∀ p, Dictionary.entryOf row (p + 1) = (indices[p]?.map coefficient).getD 0)
    (x : Nat → Rat) :
    d.rowValue row x = Dictionary.entryOf row 0 -
      (indices.map fun index => coefficient index * x index).sum := by
  have hname (p : Nat) : d.nonBasicAt (1 + p) = indices[p]? := by
    rw [add_comm]
    exact h.columns_list.name_eq p
  have hsum : ∑ p ∈ Finset.range indices.length,
      (indices[p]?.map coefficient).getD 0 * x (indices[p]?.getD 0) =
        (indices.map fun index => coefficient index * x index).sum :=
    sum_range_getElem? (fun index => (index.map coefficient).getD 0 * x (index.getD 0)) indices
  rw [Dictionary.rowValue, h.width_eq, Finset.sum_Ico_eq_sum_range, Nat.add_sub_cancel]
  congr 1
  rw [← hsum]
  apply Finset.sum_congr rfl
  intro p _
  rw [Dictionary.nameAt, hname, add_comm, hrow]

theorem rowValue_constraint {height p : Nat}
    (h : IsLoadedWith known minimises height (indices.length + 1) indices constraints d)
    (hindices : indices.Nodup) {constraint : Constraint Rat}
    (hconstraint : constraints[p]? = some constraint) (hloadable : IsLoadable indices constraint)
    (x : Nat → Rat) :
    d.rowValue (d.row (p + 1)) x =
      constraint.sign * constraint.rhs - constraint.sign * constraint.valueAt x := by
  have hentry (c : Nat) : Dictionary.entryOf (d.row (p + 1)) c =
      loadedEntry indices constraint c := by
    have hall := h.entry_eq p c
    rw [hconstraint] at hall
    exact hall
  have hrow (q : Nat) : Dictionary.entryOf (d.row (p + 1)) (q + 1) =
      (indices[q]?.map fun index =>
        constraint.sign * (constraint.coefficientOf? index).getD 0).getD 0 := by
    rw [hentry, loadedEntry]
    cases indices[q]? with
    | none => rfl
    | some index =>
      rw [Option.bind_some, Option.map_some, Option.getD_some]
      cases constraint.coefficientOf? index with
      | none => exact (mul_zero constraint.sign).symm
      | some coefficient => rfl
  rw [h.rowValue_eq _ hrow, hentry, loadedEntry, Constraint.valueAt,
    ← sum_coefficients hindices hloadable.terms_mem hloadable.terms_nodup x,
    ← List.sum_map_mul_left]
  congr 2
  apply List.map_congr_left
  intro index _
  exact mul_assoc ..

/-- The rows of a loaded dictionary are its constraints. -/
theorem satisfies_iff
    (h : IsLoadedWith known minimises (constraints.length + 1) (indices.length + 1) indices
      constraints d)
    (hindices : indices.Nodup)
    (hloadable : ∀ constraint ∈ constraints, IsLoadable indices constraint) (x : Nat → Rat) :
    d.Satisfies x ↔ ∀ constraint ∈ constraints, constraint.Holds x := by
  have hname {p : Nat} {constraint : Constraint Rat} (hp : constraints[p]? = some constraint) :
      d.basicAt (p + 1) = some constraint.slack := by
    have hlist := h.rows_list.name_eq p
    rw [List.getElem?_map, hp] at hlist
    exact hlist
  have hrow {p : Nat} {constraint : Constraint Rat} (hp : constraints[p]? = some constraint) :
      x constraint.slack = d.rowValue (d.row (p + 1)) x ↔ constraint.Holds x := by
    rw [h.rowValue_constraint hindices hp (hloadable _ (List.mem_of_getElem? hp)),
      Constraint.Holds, eq_sub_iff_add_eq, add_comm]
  constructor
  · intro hx constraint hconstraint
    obtain ⟨p, hp⟩ := List.getElem?_of_mem hconstraint
    have hlt := (List.getElem?_eq_some_iff.1 hp).1
    apply (hrow hp).1
    apply hx (p + 1) _ _ (hname hp)
    rw [Dictionary.mem_rows, h.height_eq]
    omega
  · intro hx r hr index hindex
    rw [Dictionary.mem_rows, h.height_eq] at hr
    obtain ⟨p, rfl⟩ : ∃ p, r = p + 1 := ⟨r - 1, by omega⟩
    have hp := List.getElem?_eq_getElem (by omega : p < constraints.length)
    rw [hname hp, Option.some.injEq] at hindex
    rw [← hindex]
    exact (hrow hp).2 (hx _ (List.mem_of_getElem? hp))

end Tableau.IsLoadedWith

/-- A dictionary built from scratch denotes its model. -/
theorem Model.Fits.denotes_of_isLoadedWith {model : Model Rat} {t : Tableau Rat}
    (h : model.Fits t) {d : Dictionary Rat}
    (hloaded : Tableau.IsLoadedWith model.tableau.lookup? model.minimises
      (model.constraints.values.length + 1) (model.indices.length + 1) model.indices
      model.constraints.values d) : d.Denotes model := by
  constructor
  · intro x
    exact hloaded.satisfies_iff h.indices_nodup h.isLoadable x
  · intro x _ priority
    have hrow (p : Nat) : Dictionary.entryOf (d.objectiveRow priority) (p + 1) =
        (model.indices[p]?.map fun index => (if model.minimises then -1 else 1) *
          model.tableau.costIn priority index).getD 0 := by
      rw [hloaded.cost_eq, Tableau.loadedCost]
      cases model.indices[p]? with
      | none => rfl
      | some index =>
        rw [Option.bind_some, Option.map_some, Option.getD_some, Tableau.costIn]
        cases model.tableau.lookup? index with
        | none => exact (mul_zero _).symm
        | some data =>
          simp only
          split
          · rfl
          · exact (mul_zero _).symm
    have hfactor : (model.indices.map fun index => (if model.minimises then -1 else 1) *
        model.tableau.costIn priority index * x index).sum = (if model.minimises then -1 else 1) *
          (model.indices.map fun index => model.tableau.costIn priority index * x index).sum := by
      rw [← List.sum_map_mul_left]
      congr 1
      apply List.map_congr_left
      intro index _
      exact mul_assoc ..
    rw [Dictionary.objectiveAt, hloaded.rowValue_eq _ hrow, hloaded.cost_eq, Tableau.loadedCost,
      hfactor, Model.objectiveAt]
    split <;> ring

end MixedInteger
