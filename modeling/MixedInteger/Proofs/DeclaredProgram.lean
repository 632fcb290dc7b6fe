import Mathlib.Data.List.Forall2
import Mathlib.Data.List.ReduceOption
import MixedInteger.Model.Description
import MixedInteger.Proofs.FloatWords
import MixedInteger.Proofs.Growth
import MixedInteger.Proofs.ProperValues

/-!
# Declared programs

What a description declares, read off its fields without regard to how a model is filled:
bounds on attributes, each possibly soft, and variables with a cost and a coefficient for
every attribute.  `Model.Realises` says that a model is such a program, given where the
variables and slacks of the program stand in the model.
-/

namespace MixedInteger

/-! ## Fields of a description -/

namespace Json

def number? (json : Json) (name : String) : Option Float :=
  (json.field name).asNumber.toOption

def entries (json : Json) (name : String) : List (String × Json) :=
  match json.field name with
  | .object fields => fields
  | _ => []

/-- Whether a field flags a name, as an object with a value for it that is set or as a list
in which it occurs. -/
def flags (json : Json) (name flagged : String) : Bool :=
  match json.field name with
  | .object fields => fields.any fun entry => entry.1 == flagged && entry.2.isSet
  | .array items => items.any fun
    | .string item => item == flagged
    | _ => false
  | _ => false

/-- The weight and the priority of a soft constraint.  A weight or a priority makes a
constraint soft, unless the priority is that of the objective proper. -/
def penalty? (json : Json) : Option (Float × Priority) :=
  if (json.field "weight").isNull && (json.field "priority").isNull then none
  else
    match Model.readPriority (json.field "priority") with
    | .ok priority =>
      if priority.isRequired then none else some ((json.number? "weight").getD 1, priority)
    | .error _ => none

end Json

/-! ## Reading fields -/

theorem inContext_eq_ok {β : Type} {context : Context} {computation : Except Fault β}
    {result : β} (h : inContext context computation = .ok result) : computation = .ok result := by
  cases computation with
  | ok value => exact h
  | error fault => cases h

namespace Json

variable {json : Json} {name : String}

theorem IsProper.field (h : json.IsProper) (name : String) : (json.field name).IsProper := by
  cases h with
  | @object fields _ hfields =>
    rw [Json.field, OrderedMap.get?]
    cases hfind : fields.find? fun entry => entry.1 == name with
    | none => exact .null
    | some entry => exact hfields entry (List.mem_of_find?_eq_some hfind)
  | _ => exact .null

theorem IsProper.entries (h : json.IsProper) (name : String) :
    ((json.entries name).map Prod.fst).Nodup ∧ ∀ entry ∈ json.entries name, entry.2.IsProper := by
  have hfield := h.field name
  rw [Json.entries]
  split
  · rename_i fields hfields
    rw [hfields] at hfield
    exact isProper_object.1 hfield
  · exact ⟨List.nodup_nil, fun entry hentry => absurd hentry List.not_mem_nil⟩

theorem entries_of_objectField {fields : List (String × Json)}
    (h : json.objectField name = .ok fields) : json.entries name = fields := by
  rw [entries]
  cases hfield : json.field name with
  | object found =>
    rw [objectField, hfield] at h
    injection h
  | _ =>
    rw [objectField, hfield] at h
    cases h

theorem number?_of_asNumber {value : Float} (h : (json.field name).asNumber = .ok value) :
    json.number? name = some value := by
  rw [number?, h]
  rfl

theorem number?_of_null (h : json.field name = .null) : json.number? name = none := by
  rw [number?, h]
  rfl

theorem number?_of_optionalNumberField {value : Option Float}
    (h : json.optionalNumberField name = .ok value) : json.number? name = value := by
  rw [optionalNumberField] at h
  split at h
  · rename_i hnull
    rw [number?_of_null hnull]
    injection h
  · cases hnumber : (json.field name).asNumber with
    | ok number =>
      rw [hnumber] at h
      rw [number?_of_asNumber hnumber]
      injection h
    | error fault =>
      rw [hnumber] at h
      cases h

theorem number?_of_not_mem {fields : List (String × Json)} (hname : name ∉ fields.map Prod.fst) :
    (object fields).number? name = none := by
  apply number?_of_null
  have hnone : OrderedMap.get? fields name = none := by
    rw [OrderedMap.get?, Option.map_eq_none_iff, List.find?_eq_none]
    intro entry hentry heq
    exact hname (List.mem_map.2 ⟨entry, hentry, by simpa using heq⟩)
  rw [field, hnone]
  rfl

/-- A field after the others is found under its own name. -/
theorem number?_append {fields : List (String × Json)} (hname : name ∉ fields.map Prod.fst)
    (value : Json) (other : String) :
    (object (fields ++ [(name, value)])).number? other =
      if other = name then value.asNumber.toOption else (object fields).number? other := by
  have hfield : (object (fields ++ [(name, value)])).field other =
      if other = name then value else (object fields).field other := by
    by_cases hother : other = name
    · have hnone : fields.find? (fun entry => entry.1 == other) = none := by
        rw [List.find?_eq_none]
        intro entry hentry heq
        exact hname (List.mem_map.2 ⟨entry, hentry, by simpa [hother] using heq⟩)
      simp [field, OrderedMap.get?, List.find?_append, hnone, hother.symm]
    · have hother' : ¬ name = other := Ne.symm hother
      simp [field, OrderedMap.get?, List.find?_append, hother, hother']
  rw [number?, hfield, number?]
  split <;> rfl

theorem contains_of_namesOf {items : List Json} {names : List String}
    (h : namesOf name items = .ok names) (flagged : String) :
    names.contains flagged = items.any fun
      | .string item => item == flagged
      | _ => false := by
  induction items generalizing names with
  | nil =>
    injection h with hnames
    rw [← hnames]
    rfl
  | cons item rest ih =>
    cases item with
    | string text =>
      cases hrest : namesOf name rest with
      | ok others =>
        rw [namesOf, hrest] at h
        injection h with hnames
        rw [← hnames, List.contains_cons, ih hrest, List.any_cons, Bool.beq_comm]
      | error fault =>
        rw [namesOf, hrest] at h
        cases h
    | _ => cases h

/-- The names that are read from a field are those it flags. -/
theorem contains_of_flagsField {names : List String} (h : json.flagsField name = .ok names)
    (flagged : String) : names.contains flagged = json.flags name flagged := by
  rw [flagsField] at h
  rw [flags]
  split at h
  · rename_i hfield
    rw [hfield]
    injection h with hnames
    rw [← hnames]
    rfl
  · rename_i fields hfield
    rw [hfield]
    injection h with hnames
    rw [← hnames, Bool.eq_iff_iff, List.contains_iff_mem]
    simp [and_comm]
  · rename_i items hfield
    rw [hfield]
    exact contains_of_namesOf h flagged
  · cases h

theorem cost_of_readCost {objective : String} {cost : Float}
    (h : Model.readCost objective name json = .ok cost) :
    (json.number? objective).getD 0 = cost := by
  unfold Model.readCost at h
  split at h
  · rename_i hnull
    rw [number?_of_null hnull]
    injection h
  · rw [number?_of_asNumber (inContext_eq_ok h)]
    rfl

/-- The relaxation that a named constraint is given is its penalty, unless it is required. -/
theorem penalty?_eq {weight : Float} {priority : Priority}
    (hweight : Model.readWeight (json.field "weight") = .ok weight)
    (hpriority : Model.readPriority (json.field "priority") = .ok priority) :
    json.penalty? =
      (if !(json.field "weight").isNull || !(json.field "priority").isNull then
        some (weight, priority) else none).filter fun entry => !entry.2.isRequired := by
  have hdefault : (json.number? "weight").getD 1 = weight := by
    unfold Model.readWeight at hweight
    split at hweight
    · rename_i hnull
      rw [number?_of_null hnull]
      injection hweight
    · rw [number?_of_asNumber hweight]
      rfl
  rw [penalty?, hpriority, hdefault, ← Bool.not_and]
  cases hsoft : (json.field "weight").isNull && (json.field "priority").isNull with
  | true => rfl
  | false => cases hrequired : priority.isRequired <;> simp [Option.filter, hrequired]

end Json

/-! ## Programs -/

structure Bound where
  isUpperBound : Bool
  rhs : Float

/-- The bounds on an attribute that are enforced together, with the weight and the priority
of their violation if they are soft. -/
structure Demand where
  quantity : String
  bounds : List Bound
  penalty : Option (Float × Priority)

/-- A variable with its coefficients. -/
structure Item where
  declaration : Model.Declaration Float
  /-- Whether the variable is at most one. -/
  isBinary : Bool
  /-- The coefficient of the variable in the bounds on an attribute. -/
  coefficient? : String → Option Float

/-- A program as a description declares it. -/
structure Program where
  minimises : Bool
  demands : List Demand
  items : List Item

namespace Demand

/-- The demands of a named constraint: both bounds of an equality together, or a lower and
an upper bound one after the other. -/
def ofEntry (entry : String × Json) : List Demand :=
  match entry.2.number? "equal" with
  | some rhs => [⟨entry.1, [⟨true, rhs⟩, ⟨false, rhs⟩], entry.2.penalty?⟩]
  | none =>
    (entry.2.number? "min").toList.map (fun rhs => ⟨entry.1, [⟨false, rhs⟩], entry.2.penalty?⟩) ++
      (entry.2.number? "max").toList.map fun rhs => ⟨entry.1, [⟨true, rhs⟩], entry.2.penalty?⟩

/-- The attribute and the side of each bound. -/
def labels (demand : Demand) : List (String × Bool) :=
  demand.bounds.map fun bound => (demand.quantity, bound.isUpperBound)

/-- The declaration of the variable that takes up the violation of soft bounds: the model
pays for it, whichever way it is optimised. -/
def relaxation (minimises : Bool) (number : Nat) (penalty : Float × Priority) :
    Model.Declaration Float where
  cost := if minimises then penalty.1 else -penalty.1
  name := some s!"r{number}"
  isInteger := false
  isFree := false
  priority := penalty.2

end Demand

theorem Demand.mem_ofEntry {entry : String × Json} {demand : Demand}
    (h : demand ∈ Demand.ofEntry entry) : demand.quantity = entry.1 ∧ demand.bounds ≠ [] := by
  rw [Demand.ofEntry] at h
  split at h
  · rw [List.mem_singleton.1 h]
    exact ⟨rfl, List.cons_ne_nil _ _⟩
  · rcases List.mem_append.1 h with hlower | hupper
    · obtain ⟨rhs, -, rfl⟩ := List.mem_map.1 hlower
      exact ⟨rfl, List.cons_ne_nil _ _⟩
    · obtain ⟨rhs, -, rfl⟩ := List.mem_map.1 hupper
      exact ⟨rfl, List.cons_ne_nil _ _⟩

namespace Item

def ofEntry (objective : String) (json : Json) (entry : String × Json) : Item where
  declaration :=
    { cost := (entry.2.number? objective).getD 0
      name := some entry.1
      isInteger := json.flags "ints" entry.1 || json.flags "binaries" entry.1
      isFree := json.flags "unrestricted" entry.1
      priority := .required }
  isBinary := json.flags "binaries" entry.1
  coefficient? := entry.2.number?

/-- The item without a coefficient for one attribute. -/
def blindTo (quantity : String) (item : Item) : Item :=
  { item with
    coefficient? := fun other => if other = quantity then none else item.coefficient? other }

end Item

namespace Program

/-- The program that a description with a given objective declares. -/
def described (objective : String) (json : Json) : Program where
  minimises := match json.textField "opType" with
    | .ok "max" => false
    | _ => true
  demands := (json.entries "constraints").flatMap Demand.ofEntry
  items := (json.entries "variables").map (Item.ofEntry objective json)

def blindTo (quantity : String) (program : Program) : Program :=
  { program with items := program.items.map (Item.blindTo quantity) }

def push (program : Program) (item : Item) : Program :=
  { program with items := program.items ++ [item] }

def labels (program : Program) : List (String × Bool) :=
  program.demands.flatMap Demand.labels

end Program

/-! ## Programs in a model -/

/-- Where the variables and the slacks of a program stand in a model. -/
structure Layout where
  /-- The slack of a bound, by its attribute and its side. -/
  slack : String → Bool → Nat
  /-- The relaxation variable of each demand, if it has one. -/
  relaxers : List (Option Nat)
  /-- The index of each item. -/
  owners : List Nat
  /-- The slack of the bound on a binary variable, by its index. -/
  cap : Nat → Nat

namespace Layout

def push (layout : Layout) (owner : Nat) : Layout :=
  { layout with owners := layout.owners ++ [owner] }

/-- The terms that the relaxation variable of a bound has in it. -/
def relaxerTerms (isUpperBound : Bool) (relaxer : Option Nat) : List (Term Float) :=
  relaxer.toList.map fun index => ⟨index, if isUpperBound then -1 else 1⟩

/-- A bound of a demand as a constraint with further terms. -/
def row (layout : Layout) (terms : String → Bool → List (Term Float)) (demand : Demand)
    (relaxer : Option Nat) (bound : Bound) : Constraint Float where
  slack := layout.slack demand.quantity bound.isUpperBound
  rhs := bound.rhs
  isUpperBound := bound.isUpperBound
  terms := relaxerTerms bound.isUpperBound relaxer ++ terms demand.quantity bound.isUpperBound
  relaxation := relaxer

def rows (layout : Layout) (terms : String → Bool → List (Term Float)) (demands : List Demand) :
    List (Constraint Float) :=
  (demands.zip layout.relaxers).flatMap fun (demand, relaxer) =>
    demand.bounds.map (layout.row terms demand relaxer)

/-- The terms of the items in the bounds on an attribute, in order. -/
def terms (layout : Layout) (items : List Item) (quantity : String) : List (Term Float) :=
  (items.zip layout.owners).filterMap fun (item, owner) =>
    (item.coefficient? quantity).map fun coefficient => ⟨owner, unsignedZero coefficient⟩

def caps (layout : Layout) (items : List Item) : List (Constraint Float) :=
  ((items.zip layout.owners).filter fun (item, _) => item.isBinary).map fun (_, owner) =>
    ⟨layout.cap owner, 1, true, [⟨owner, 1⟩], none⟩

def constraints (layout : Layout) (program : Program) : List (Constraint Float) :=
  layout.rows (fun quantity _ => layout.terms program.items quantity) program.demands ++
    layout.caps program.items

/-! ## Rows by the labels of their bounds -/

section Rows

variable {layout layout' : Layout} {terms terms' : String → Bool → List (Term Float)}
  {demands : List Demand} {items : List Item}

/-- Changing every row changes what the rows are made of. -/
theorem map_rows (change : Constraint Float → Constraint Float)
    (hrelaxers : layout'.relaxers = layout.relaxers)
    (hrow : ∀ demand ∈ demands, ∀ bound ∈ demand.bounds, ∀ relaxer ∈ layout.relaxers,
      change (layout.row terms demand relaxer bound) = layout'.row terms' demand relaxer bound) :
    (layout.rows terms demands).map change = layout'.rows terms' demands := by
  rw [rows, List.map_flatMap, rows, hrelaxers]
  apply List.flatMap_congr
  rintro ⟨demand, relaxer⟩ hentry
  obtain ⟨hdemand, hrelaxer⟩ := List.of_mem_zip hentry
  rw [List.map_map]
  apply List.map_congr_left
  intro bound hbound
  exact hrow demand hdemand bound hbound relaxer hrelaxer

theorem rows_congr (hrelaxers : layout'.relaxers = layout.relaxers)
    (hlabels : ∀ label ∈ demands.flatMap Demand.labels,
      layout'.slack label.1 label.2 = layout.slack label.1 label.2 ∧
        terms' label.1 label.2 = terms label.1 label.2) :
    layout'.rows terms' demands = layout.rows terms demands := by
  rw [← map_rows id hrelaxers, List.map_id]
  intro demand hdemand bound hbound relaxer _
  obtain ⟨hslack, hterms⟩ := hlabels (demand.quantity, bound.isUpperBound)
    (List.mem_flatMap.2 ⟨demand, hdemand, List.mem_map_of_mem hbound⟩)
  simp only [id, row]
  rw [hslack, hterms]

theorem rows_append (layout : Layout) (demand : Demand) (relaxer : Option Nat)
    (hlength : demands.length = layout.relaxers.length) :
    { layout with relaxers := layout.relaxers ++ [relaxer] }.rows terms (demands ++ [demand]) =
      layout.rows terms demands ++ demand.bounds.map (layout.row terms demand relaxer) := by
  rw [rows, List.zip_append hlength, List.flatMap_append, rows]
  simp
  rfl

/-- The slacks of the rows are those of their labels. -/
theorem map_slack_rows (hlength : demands.length = layout.relaxers.length) :
    (layout.rows terms demands).map Constraint.slack =
      (demands.flatMap Demand.labels).map fun label => layout.slack label.1 label.2 := by
  have hdemands : (demands.zip layout.relaxers).map Prod.fst = demands :=
    List.map_fst_zip (Nat.le_of_eq hlength)
  have hlabels : demands.flatMap Demand.labels =
      (demands.zip layout.relaxers).flatMap fun entry => entry.1.labels := by
    rw [← List.flatMap_map Prod.fst Demand.labels, hdemands]
  rw [hlabels, rows, List.map_flatMap, List.map_flatMap]
  apply List.flatMap_congr
  intro entry _
  rw [Demand.labels, List.map_map, List.map_map]
  rfl

/-- Each label has its row. -/
theorem exists_row {label : String × Bool} (hlength : demands.length = layout.relaxers.length)
    (hlabel : label ∈ demands.flatMap Demand.labels) :
    ∃ constraint ∈ layout.rows terms demands,
      constraint.slack = layout.slack label.1 label.2 := by
  rw [← List.mem_map, map_slack_rows hlength]
  exact List.mem_map_of_mem hlabel

/-- Without items there are only the bounds of the demands. -/
theorem constraints_nil (minimises : Bool) (demands : List Demand) :
    layout.constraints ⟨minimises, demands, []⟩ = layout.rows (fun _ _ => []) demands :=
  List.append_nil _

theorem terms_push (item : Item) (owner : Nat) (quantity : String)
    (hlength : items.length = layout.owners.length) :
    (layout.push owner).terms (items ++ [item]) quantity =
      layout.terms items quantity ++
        ((item.coefficient? quantity).map fun coefficient =>
          (⟨owner, unsignedZero coefficient⟩ : Term Float)).toList := by
  rw [terms, push, List.zip_append hlength, List.filterMap_append, terms]
  cases hcoefficient : item.coefficient? quantity <;> simp [hcoefficient]

theorem caps_push (item : Item) (owner : Nat) (hlength : items.length = layout.owners.length) :
    (layout.push owner).caps (items ++ [item]) =
      layout.caps items ++
        if item.isBinary then [⟨layout.cap owner, 1, true, [⟨owner, 1⟩], none⟩] else [] := by
  rw [caps, push, List.zip_append hlength, List.filter_append, List.map_append, caps]
  cases hbinary : item.isBinary <;> simp [hbinary]

/-- The constraints with one more item. -/
theorem constraints_push (layout : Layout) {program : Program} (item : Item) (owner : Nat)
    (hlength : program.items.length = layout.owners.length) :
    (layout.push owner).constraints (program.push item) =
      layout.rows (fun quantity _ => layout.terms program.items quantity ++
        ((item.coefficient? quantity).map fun coefficient =>
          (⟨owner, unsignedZero coefficient⟩ : Term Float)).toList) program.demands ++
      (layout.caps program.items ++
        if item.isBinary then [⟨layout.cap owner, 1, true, [⟨owner, 1⟩], none⟩] else []) := by
  rw [constraints, Program.push]
  simp only [terms_push item owner _ hlength, caps_push item owner hlength]
  rfl

/-- The layout with the slack of the bound on one more binary variable. -/
def withCap (layout : Layout) (owner slack : Nat) : Layout :=
  { layout with cap := fun other => if other = owner then slack else layout.cap other }

theorem caps_withCap {owner : Nat} (howner : owner ∉ layout.owners) (slack : Nat) :
    (layout.withCap owner slack).caps items = layout.caps items := by
  apply List.map_congr_left
  rintro ⟨item, other⟩ hentry
  obtain ⟨-, hother⟩ := List.of_mem_zip (List.mem_filter.1 hentry).1
  have hne : other ≠ owner := by
    rintro rfl
    exact howner hother
  simp only [withCap, hne, ↓reduceIte]

theorem mem_rows {constraint : Constraint Float} (h : constraint ∈ layout.rows terms demands) :
    ∃ demand ∈ demands, ∃ relaxer ∈ layout.relaxers, ∃ bound ∈ demand.bounds,
      constraint = layout.row terms demand relaxer bound := by
  obtain ⟨⟨demand, relaxer⟩, hentry, hmem⟩ := List.mem_flatMap.1 h
  obtain ⟨bound, hbound, rfl⟩ := List.mem_map.1 hmem
  obtain ⟨hdemand, hrelaxer⟩ := List.of_mem_zip hentry
  exact ⟨demand, hdemand, relaxer, hrelaxer, bound, hbound, rfl⟩

theorem exists_mem_rows (hlength : demands.length = layout.relaxers.length) {demand : Demand}
    (hdemand : demand ∈ demands) :
    ∃ relaxer, ∀ terms, ∀ bound ∈ demand.bounds,
      layout.row terms demand relaxer bound ∈ layout.rows terms demands := by
  have hdemands : (demands.zip layout.relaxers).map Prod.fst = demands :=
    List.map_fst_zip (Nat.le_of_eq hlength)
  rw [← hdemands] at hdemand
  obtain ⟨entry, hentry, rfl⟩ := List.mem_map.1 hdemand
  exact ⟨entry.2, fun terms bound hbound =>
    List.mem_flatMap.2 ⟨entry, hentry, List.mem_map_of_mem hbound⟩⟩

/-- Further terms with one more in the bound of a label. -/
def pushTerm (terms : String → Bool → List (Term Float)) (label : String × Bool)
    (term : Term Float) : String → Bool → List (Term Float) :=
  fun quantity side =>
    if (quantity, side) = label then terms quantity side ++ [term] else terms quantity side

/-- One more term in the row of a label, if slacks tell labels apart. -/
theorem map_push_rows {label : String × Bool}
    (hslacks : ∀ other ∈ demands.flatMap Demand.labels,
      layout.slack other.1 other.2 = layout.slack label.1 label.2 → other = label)
    (term : Term Float) :
    (layout.rows terms demands).map (fun constraint =>
      if constraint.slack = layout.slack label.1 label.2 then constraint.push term
      else constraint) = layout.rows (pushTerm terms label term) demands := by
  apply map_rows _ rfl
  intro demand hdemand bound hbound relaxer _
  by_cases hlabel : (demand.quantity, bound.isUpperBound) = label
  · subst hlabel
    simp only [row, ↓reduceIte, Constraint.push, pushTerm, List.append_assoc]
  · have hslack : layout.slack demand.quantity bound.isUpperBound ≠
        layout.slack label.1 label.2 := fun heq => hlabel (hslacks _
      (List.mem_flatMap.2 ⟨demand, hdemand, List.mem_map_of_mem hbound⟩) heq)
    simp only [row, hslack, ↓reduceIte, pushTerm, hlabel]

theorem mem_terms {quantity : String} {term : Term Float}
    (h : term ∈ layout.terms items quantity) : term.index ∈ layout.owners := by
  obtain ⟨⟨item, owner⟩, hentry, hterm⟩ := List.mem_filterMap.1 h
  obtain ⟨coefficient, -, rfl⟩ := Option.map_eq_some_iff.1 hterm
  exact (List.of_mem_zip hentry).2

theorem terms_eq_nil_iff {quantity : String} (hlength : items.length = layout.owners.length) :
    layout.terms items quantity = [] ↔ ∀ item ∈ items, item.coefficient? quantity = none := by
  have hitems : (items.zip layout.owners).map Prod.fst = items :=
    List.map_fst_zip (Nat.le_of_eq hlength)
  rw [terms, List.filterMap_eq_nil_iff]
  constructor
  · intro hnone item hitem
    rw [← hitems] at hitem
    obtain ⟨entry, hentry, rfl⟩ := List.mem_map.1 hitem
    exact Option.map_eq_none_iff.1 (hnone entry hentry)
  · rintro hnone ⟨item, owner⟩ hentry
    simp [hnone item (List.of_mem_zip hentry).1]

theorem terms_blindTo (objective quantity : String) :
    layout.terms (items.map (Item.blindTo objective)) quantity =
      if quantity = objective then [] else layout.terms items quantity := by
  rw [terms, List.zip_map_left, List.filterMap_map, terms]
  split
  · rename_i hquantity
    rw [List.filterMap_eq_nil_iff]
    intro entry _
    simp [Item.blindTo, hquantity]
  · rename_i hquantity
    simp [Item.blindTo, hquantity]

theorem caps_blindTo (objective : String) :
    layout.caps (items.map (Item.blindTo objective)) = layout.caps items := by
  rw [caps, List.zip_map_left, List.filter_map, List.map_map, caps]
  rfl

end Rows

end Layout

/-! ## Models of a program -/

namespace Model

/-- A demand has a relaxation variable if it is soft, with the declared cost and priority. -/
structure Relaxes (model : Model Float) (demand : Demand) (relaxer : Option Nat) : Prop where
  isSome_eq : relaxer.isSome = demand.penalty.isSome
  declared : ∀ penalty ∈ demand.penalty, ∀ index ∈ relaxer, ∃ number, model.lookup? index =
    some ((Demand.relaxation model.minimises number penalty).toVariable index)

/-- A model is a program, laid out as given: its variables are the relaxations and the items
of the program, and its constraints are those of the program, both in order. -/
structure Realises (model : Model Float) (program : Program) (layout : Layout) : Prop
    extends model.IsQuiet where
  minimises_eq : model.minimises = program.minimises
  indices_eq : model.indices = layout.relaxers.reduceOption ++ layout.owners
  constraints_eq : model.constraints.values = layout.constraints program
  relaxers_fit : List.Forall₂ model.Relaxes program.demands layout.relaxers
  owners_fit : List.Forall₂ (fun declaration owner =>
    model.lookup? owner = some (declaration.toVariable owner))
    (program.items.map Item.declaration) layout.owners

end Model

end MixedInteger
