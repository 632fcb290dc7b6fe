import MixedInteger.Proofs.DeclaredProgram
import MixedInteger.Proofs.Growth

/-!
# Loading a description

Filling a model follows the description: first the demands, one after the other, then the
items, each with its terms.  Two tables lead from the name of a constraint to its
inequalities.  The invariant of both loops is that the model realises the program that has
been read so far, and that the tables know the slacks of its bounds.
-/

namespace MixedInteger

namespace Model

variable {model model' : Model Float} {program program' : Program} {layout layout' : Layout}

/-! ## What growth keeps -/

theorem Grows.lookup?_of_some {fresh : List Nat} (h : Grows model model' fresh) {index : Nat}
    {data : Variable Float} (hsome : model.lookup? index = some data) :
    model'.lookup? index = some data := by
  have hindex : index ∈ model.indices := by
    rw [lookup?] at hsome
    split at hsome
    · rename_i hmem
      exact List.contains_iff_mem.1 hmem
    · cases hsome
  rw [h.lookup?_eq index hindex, hsome]

theorem Grows.relaxes {fresh : List Nat} (h : Grows model model' fresh) {demand : Demand}
    {relaxer : Option Nat} (hrelaxes : model.Relaxes demand relaxer) :
    model'.Relaxes demand relaxer := by
  refine ⟨hrelaxes.isSome_eq, fun penalty hpenalty index hindex => ?_⟩
  obtain ⟨number, hlookup⟩ := hrelaxes.declared penalty hpenalty index hindex
  rw [h.minimises_eq]
  exact ⟨number, h.lookup?_of_some hlookup⟩

/-- The variables of a program stay declared. -/
theorem Realises.of_grows (h : model.Realises program layout) (hgrows : Grows model model' [])
    (hminimises : program'.minimises = program.minimises)
    (hdemands : program'.demands = program.demands)
    (hitems : program'.items.map Item.declaration = program.items.map Item.declaration)
    (hrelaxers : layout'.relaxers = layout.relaxers) (howners : layout'.owners = layout.owners)
    (hconstraints : model'.constraints.values = layout'.constraints program') :
    model'.Realises program' layout' where
  toIsQuiet := hgrows.quiet
  minimises_eq := by rw [hgrows.minimises_eq, hminimises, h.minimises_eq]
  indices_eq := by rw [hgrows.indices_eq, List.append_nil, h.indices_eq, hrelaxers, howners]
  constraints_eq := hconstraints
  relaxers_fit := by
    rw [hdemands, hrelaxers]
    exact h.relaxers_fit.imp fun _ _ => hgrows.relaxes
  owners_fit := by
    rw [hitems, howners]
    exact h.owners_fit.imp fun _ _ => hgrows.lookup?_of_some

theorem Realises.length_relaxers (h : model.Realises program layout) :
    program.demands.length = layout.relaxers.length :=
  h.relaxers_fit.length_eq

theorem Realises.length_owners (h : model.Realises program layout) :
    program.items.length = layout.owners.length := by
  rw [← List.length_map Item.declaration]
  exact h.owners_fit.length_eq

/-! ## Demands -/

/-- Where the inequalities of the upper or of the lower bounds are found. -/
def Bounds.side (bounds : Bounds) : Bool → OrderedMap String ConstraintRef
  | true => bounds.upper
  | false => bounds.lower

/-- The tables lead from a quantity and a side to the slack of its bound. -/
structure Bounds.Tracks (bounds : Bounds) (labels : List (String × Bool))
    (slack : String → Bool → Nat) : Prop where
  found : ∀ label ∈ labels,
    (bounds.side label.2).get? label.1 = some (.inequality (slack label.1 label.2))
  absent : ∀ label, label ∉ labels → (bounds.side label.2).get? label.1 = none

def Bounds.note (bounds : Bounds) (name : String) (isUpperBound : Bool) (slack : Nat) : Bounds :=
  match isUpperBound with
  | true => { bounds with upper := bounds.upper.insert name (.inequality slack) }
  | false => { bounds with lower := bounds.lower.insert name (.inequality slack) }

def withSlack (slack : String → Bool → Nat) (name : String) (isUpperBound : Bool) (new : Nat) :
    String → Bool → Nat :=
  fun quantity side => if (quantity, side) = (name, isUpperBound) then new else slack quantity side

theorem Bounds.get?_note (bounds : Bounds) (name : String) (isUpperBound : Bool) (slack : Nat)
    (label : String × Bool) :
    ((bounds.note name isUpperBound slack).side label.2).get? label.1 =
      if label = (name, isUpperBound) then some (.inequality slack)
      else (bounds.side label.2).get? label.1 := by
  obtain ⟨quantity, side⟩ := label
  by_cases hname : name = quantity
  · subst hname
    cases isUpperBound <;> cases side <;> simp [note, Bounds.side, OrderedMap.get?_insert]
  · have hname' : quantity ≠ name := Ne.symm hname
    cases isUpperBound <;> cases side <;>
      simp [note, Bounds.side, OrderedMap.get?_insert, hname, hname']

theorem Bounds.Tracks.note {bounds : Bounds} {labels : List (String × Bool)}
    {slack : String → Bool → Nat} (h : bounds.Tracks labels slack) (name : String)
    (isUpperBound : Bool) (new : Nat) :
    (bounds.note name isUpperBound new).Tracks (labels ++ [(name, isUpperBound)])
      (withSlack slack name isUpperBound new) where
  found label hlabel := by
    rw [get?_note, withSlack]
    by_cases hnew : label = (name, isUpperBound)
    · rw [if_pos hnew, if_pos hnew]
    · have hold : label ∈ labels := by simpa [hnew] using hlabel
      rw [if_neg hnew, if_neg hnew, h.found label hold]
  absent label hlabel := by
    rw [List.mem_append, List.mem_singleton, not_or] at hlabel
    rw [get?_note, if_neg hlabel.2, h.absent label hlabel.1]

theorem withSlack_of_ne {slack : String → Bool → Nat} {name : String} {isUpperBound : Bool}
    {label : String × Bool} (hne : label ≠ (name, isUpperBound)) (new : Nat) :
    withSlack slack name isUpperBound new label.1 label.2 = slack label.1 label.2 :=
  if_neg hne

def name? {α : Type} (model : Model α) (index : Nat) : Option String :=
  (model.lookup? index).map Variable.name

def relaxationNames (count : Nat) : List String :=
  (List.range' 1 count).map fun number => s!"r{number}"

/-- The relaxations of a model are numbered in order. -/
structure Numbers (model : Model Float) (relaxers : List Nat) : Prop where
  mem_indices : ∀ index ∈ relaxers, index ∈ model.indices
  next_eq : model.nextRelaxation = relaxers.length + 1
  named : relaxers.map model.name? = (relaxationNames relaxers.length).map some

theorem Numbers.of_grows {relaxers fresh : List Nat} (h : model.Numbers relaxers)
    (hgrows : Grows model model' fresh) : model'.Numbers relaxers where
  mem_indices index hindex := by
    rw [hgrows.indices_eq]
    exact List.mem_append_left _ (h.mem_indices index hindex)
  next_eq := hgrows.nextRelaxation_eq.trans h.next_eq
  named := by
    rw [← h.named]
    apply List.map_congr_left
    intro index hindex
    rw [name?, hgrows.lookup?_eq index (h.mem_indices index hindex), name?]

theorem Numbers.push {relaxers : List (Option Nat)} {relaxer : Option Nat}
    (h : model.Numbers relaxers.reduceOption)
    (hgrows : Grows (model.numberedBy relaxer) model' relaxer.toList)
    (hname : ∀ index ∈ relaxer, model'.name? index = some s!"r{model.nextRelaxation}") :
    model'.Numbers (relaxers ++ [relaxer]).reduceOption := by
  rw [← List.concat_eq_append, List.reduceOption_concat]
  cases relaxer with
  | none =>
    rw [Option.toList_none, List.append_nil]
    exact h.of_grows hgrows
  | some index =>
    have hold (other : Nat) (hother : other ∈ relaxers.reduceOption) :
        model'.name? other = model.name? other :=
      congrArg (Option.map Variable.name) (hgrows.lookup?_eq other (h.mem_indices other hother))
    refine ⟨?_, ?_, ?_⟩
    · intro other hother
      rw [hgrows.indices_eq]
      rcases List.mem_append.1 hother with hmem | hmem
      · exact List.mem_append_left _ (h.mem_indices other hmem)
      · exact List.mem_append_right _ hmem
    · rw [hgrows.nextRelaxation_eq, List.length_append]
      exact congrArg (· + 1) h.next_eq
    · rw [Option.toList_some, List.map_append, List.map_congr_left hold, h.named,
        List.map_singleton, hname index rfl, h.next_eq, List.length_append, relaxationNames,
        relaxationNames, List.length_singleton, List.range'_concat, List.map_append,
        List.map_append, Nat.one_mul, Nat.add_comm 1]
      rfl

/-- A model on its way: it has not been built, realises what was read so far, and the
tables know its bounds. -/
structure Follows (bounds : Bounds) (program : Program) (layout : Layout) (model : Model Float) :
    Prop extends model.Realises program layout where
  unloaded : model.isLoaded = false
  precision_eq : model.tableau.precision = standardPrecision
  numbers : model.Numbers layout.relaxers.reduceOption
  tracks : bounds.Tracks program.labels layout.slack

theorem relaxIf_of_hard {penalty : Option (Float × Priority)} (reference : ConstraintRef)
    (hpenalty : (penalty.filter fun entry => !entry.2.isRequired) = none) (model : Model Float) :
    relaxIf penalty reference model = .ok () model := by
  cases penalty with
  | none => rfl
  | some entry =>
    have hrequired : entry.2.isRequired = true := by
      simpa using Option.filter_eq_none_iff.1 hpenalty entry rfl
    have hrelax : relax reference entry.1 entry.2 model = .ok none model := by
      rw [relax, hrequired]
      rfl
    exact bind_of_ok hrelax

/-- A relaxation variable takes up the violation of the bounds of a demand, if there is
one. -/
theorem relaxIf_grows {demand : Demand} {penalty : Option (Float × Priority)}
    {reference : ConstraintRef} {before soft : List (Constraint Float)} (hquiet : model.IsQuiet)
    (hunloaded : model.isLoaded = false)
    (hvalues : model.constraints.values = before ++ soft)
    (hreference : reference.slacks = soft.map Constraint.slack)
    (hpenalty : demand.penalty = penalty.filter fun entry => !entry.2.isRequired) :
    ∃ relaxer model', relaxIf penalty reference model = .ok () model' ∧
      Grows (model.numberedBy relaxer) model' relaxer.toList ∧ model'.Relaxes demand relaxer ∧
      (∀ index ∈ relaxer, model'.name? index = some s!"r{model.nextRelaxation}") ∧
      model'.constraints.values = before ++ soft.map fun constraint =>
        relaxer.elim constraint constraint.relaxedBy := by
  cases hsoft : demand.penalty with
  | none =>
    refine ⟨none, model, relaxIf_of_hard reference (hpenalty.symm.trans hsoft) model,
      .refl hquiet hunloaded, ⟨by rw [hsoft]; rfl, ?_⟩, ?_, ?_⟩
    · intro _ _ _ hindex
      cases hindex
    · intro _ hindex
      cases hindex
    · rw [hvalues]
      simp
  | some entry =>
    obtain ⟨hentry, hrequired⟩ := Option.filter_eq_some_iff.1 (hpenalty.symm.trans hsoft)
    obtain ⟨index, model', hrelax, hgrows, hvalues', hlookup⟩ :=
      relax_grows hquiet hunloaded hvalues hreference entry.1 (by simpa using hrequired)
    refine ⟨some index, model', ?_, hgrows, ⟨by rw [hsoft]; rfl, ?_⟩, ?_, hvalues'⟩
    · rw [hentry]
      exact bind_of_ok hrelax
    · intro penalty' hmem index' hindex'
      rw [hsoft, Option.mem_def, Option.some.injEq] at hmem
      rw [Option.mem_def, Option.some.injEq] at hindex'
      subst hmem hindex'
      refine ⟨model.nextRelaxation, ?_⟩
      rw [hlookup, hgrows.minimises_eq]
      rfl
    · rintro _ ⟨⟩
      rw [name?, hlookup]
      rfl

/-- New inequalities of one demand become part of the program, softly if a relaxation is
given. -/
theorem relaxIf_realises {demands : List Demand} {minimises : Bool}
    {penalty : Option (Float × Priority)} {before : Model Float} (demand : Demand)
    (reference : ConstraintRef) (slack : String → Bool → Nat)
    (h : before.Realises ⟨minimises, demands, []⟩ layout)
    (hgrows : Grows before model [])
    (hvalues : model.constraints.values = before.constraints.values ++
      demand.bounds.map fun bound => Constraint.bound (slack demand.quantity bound.isUpperBound)
        bound.rhs bound.isUpperBound)
    (hreference : reference.slacks =
      demand.bounds.map fun bound => slack demand.quantity bound.isUpperBound)
    (hslack : ∀ label ∈ demands.flatMap Demand.labels,
      slack label.1 label.2 = layout.slack label.1 label.2)
    (hpenalty : demand.penalty = penalty.filter fun entry => !entry.2.isRequired) :
    ∃ relaxer model', relaxIf penalty reference model = .ok () model' ∧
      Grows (before.numberedBy relaxer) model' relaxer.toList ∧
      (∀ index ∈ relaxer, model'.name? index = some s!"r{before.nextRelaxation}") ∧
      model'.Realises ⟨minimises, demands ++ [demand], []⟩
        { layout with slack := slack, relaxers := layout.relaxers ++ [relaxer] } := by
  obtain ⟨relaxer, model', hrelax, hgrows', hrelaxes, hname, hvalues'⟩ :=
    relaxIf_grows hgrows.quiet hgrows.unloaded hvalues
      (by rw [hreference, List.map_map]; rfl) hpenalty
  rw [hgrows.nextRelaxation_eq] at hname
  have htotal : Grows (before.numberedBy relaxer) model' relaxer.toList :=
    (hgrows.numberedBy relaxer).trans hgrows'
  have howners : layout.owners = [] := List.length_eq_zero_iff.1 h.length_owners.symm
  refine ⟨relaxer, model', hrelax, htotal, hname, htotal.quiet, ?_, ?_, ?_, ?_, ?_⟩
  · exact htotal.minimises_eq.trans h.minimises_eq
  · have hindices : (before.numberedBy relaxer).indices = _ := h.indices_eq
    rw [htotal.indices_eq, hindices, howners]
    cases relaxer <;> simp [List.reduceOption_append]
  · have hold : Layout.rows { layout with slack := slack } (fun _ _ => []) demands =
        layout.rows (fun _ _ => []) demands :=
      Layout.rows_congr rfl fun label hlabel => ⟨hslack label hlabel, rfl⟩
    have hnew : (demand.bounds.map fun bound => Constraint.bound
        (slack demand.quantity bound.isUpperBound) bound.rhs bound.isUpperBound).map
          (fun constraint => relaxer.elim constraint constraint.relaxedBy) =
        demand.bounds.map (Layout.row { layout with slack := slack } (fun _ _ => []) demand
          relaxer) := by
      rw [List.map_map]
      apply List.map_congr_left
      intro bound _
      cases relaxer <;> rfl
    rw [hvalues', h.constraints_eq, Layout.constraints_nil, ← hold, hnew, Layout.constraints_nil]
    exact (Layout.rows_append { layout with slack := slack } demand relaxer
      h.length_relaxers).symm
  · refine List.rel_append (h.relaxers_fit.imp fun _ _ hfits => ?_) (.cons hrelaxes .nil)
    exact htotal.relaxes ⟨hfits.isSome_eq, hfits.declared⟩
  · rw [howners]
    exact .nil

theorem ends_check {β γ : Type} {computation : Except Fault β} {next : β → Action Float γ}
    {post : γ → Model Float → Prop}
    (hnext : ∀ result, computation = .ok result →
      Ends (next result model) post fun _ _ => True) :
    Ends ((check computation >>= next) model) post fun _ _ => True := by
  cases computation with
  | ok result => exact hnext result rfl
  | error fault => trivial

def addSide (isUpperBound : Bool) : String → Option (Float × Priority) → Bounds → Option Float →
    Action Float Bounds :=
  match isUpperBound with
  | true => addUpper
  | false => addLower

theorem addSide_eq_ok {isUpperBound : Bool} {rhs : Float} {slack : Nat} {middle : Model Float}
    {relaxation : Option (Float × Priority)} (bounds : Bounds) (name : String)
    (hadd : addInequality rhs isUpperBound model = .ok slack middle)
    (hrelax : relaxIf relaxation (.inequality slack) middle = .ok () model') :
    addSide isUpperBound name relaxation bounds (some rhs) model =
      .ok (bounds.note name isUpperBound slack) model' := by
  cases isUpperBound with
  | true =>
    have hatMost : atMost rhs model = .ok (.inequality slack) middle := bind_of_ok hadd
    exact (bind_of_ok hatMost).trans (bind_of_ok hrelax)
  | false =>
    have hatLeast : atLeast rhs model = .ok (.inequality slack) middle := bind_of_ok hadd
    exact (bind_of_ok hatLeast).trans (bind_of_ok hrelax)

section Demands

variable {bounds : Bounds} {minimises : Bool} {demands : List Demand} {name : String}
  {penalty relaxation : Option (Float × Priority)}

/-- A bound on one side is a demand of its own. -/
theorem addSide_follows (h : Follows bounds ⟨minimises, demands, []⟩ layout model)
    (hpenalty : penalty = relaxation.filter fun entry => !entry.2.isRequired)
    (isUpperBound : Bool) (hname : (name, isUpperBound) ∉ demands.flatMap Demand.labels)
    (rhs : Option Float) :
    Ends (addSide isUpperBound name relaxation bounds rhs model)
      (fun bounds' model' => ∃ layout', Follows bounds' ⟨minimises, demands ++
        rhs.toList.map fun rhs => ⟨name, [⟨isUpperBound, rhs⟩], penalty⟩, []⟩ layout' model')
      fun _ _ => True := by
  cases rhs with
  | none =>
    have hrun : addSide isUpperBound name relaxation bounds none model = .ok bounds model := by
      cases isUpperBound <;> rfl
    rw [hrun, Option.toList_none, List.map_nil, List.append_nil]
    exact ⟨layout, h⟩
  | some rhs =>
    obtain ⟨slack, middle, hadd, hgrows, hvalues⟩ :=
      addInequality_grows h.toIsQuiet h.unloaded rhs isUpperBound
    let slacks := withSlack layout.slack name isUpperBound slack
    have hslack : slacks name isUpperBound = slack := if_pos rfl
    obtain ⟨relaxer, model', hrelax, htotal, hrelaxer, hrealises⟩ := relaxIf_realises
      ⟨name, [⟨isUpperBound, rhs⟩], penalty⟩ (.inequality slack) slacks h.toRealises hgrows
      (by simp [hvalues, hslack]) (by simp [ConstraintRef.slacks, hslack])
      (fun label hlabel => withSlack_of_ne (by rintro rfl; exact hname hlabel) slack) hpenalty
    rw [addSide_eq_ok bounds name hadd hrelax]
    refine ⟨_, hrealises, htotal.unloaded, htotal.precision_eq.trans h.precision_eq,
      h.numbers.push htotal hrelaxer, ?_⟩
    rw [Program.labels, List.flatMap_append]
    exact h.tracks.note name isUpperBound slack

theorem addEquality_follows (h : Follows bounds ⟨minimises, demands, []⟩ layout model)
    (hpenalty : penalty = relaxation.filter fun entry => !entry.2.isRequired)
    (hname : ∀ side, (name, side) ∉ demands.flatMap Demand.labels) (rhs : Float) :
    Ends (addEquality name relaxation bounds rhs model)
      (fun bounds' model' => ∃ layout', Follows bounds' ⟨minimises, demands ++
        [⟨name, [⟨true, rhs⟩, ⟨false, rhs⟩], penalty⟩], []⟩ layout' model')
      fun _ _ => True := by
  obtain ⟨upper, first, haddUpper, hgrowsUpper, hvaluesUpper⟩ :=
    addInequality_grows h.toIsQuiet h.unloaded rhs true
  obtain ⟨lower, middle, haddLower, hgrowsLower, hvaluesLower⟩ :=
    addInequality_grows hgrowsUpper.quiet hgrowsUpper.unloaded rhs false
  let slacks := withSlack (withSlack layout.slack name true upper) name false lower
  have hupper : slacks name true = upper := by simp [slacks, withSlack]
  have hlower : slacks name false = lower := by simp [slacks, withSlack]
  have hslacks (label : String × Bool) (hlabel : label ∈ demands.flatMap Demand.labels) :
      slacks label.1 label.2 = layout.slack label.1 label.2 := by
    have hne (side : Bool) : label ≠ (name, side) := by
      rintro rfl
      exact hname side hlabel
    exact (withSlack_of_ne (hne false) lower).trans (withSlack_of_ne (hne true) upper)
  obtain ⟨relaxer, model', hrelax, htotal, hrelaxer, hrealises⟩ := relaxIf_realises
    ⟨name, [⟨true, rhs⟩, ⟨false, rhs⟩], penalty⟩ (.equality upper lower) slacks h.toRealises
    (hgrowsUpper.trans hgrowsLower) (by simp [hvaluesLower, hvaluesUpper, hupper, hlower])
    (by simp [ConstraintRef.slacks, hupper, hlower]) hslacks hpenalty
  rw [addEquality, bind_of_ok haddUpper, bind_of_ok haddLower, bind_of_ok hrelax]
  refine ⟨_, hrealises, htotal.unloaded, htotal.precision_eq.trans h.precision_eq,
    h.numbers.push htotal hrelaxer, ?_⟩
  have htracks := (h.tracks.note name true upper).note name false lower
  rw [List.append_assoc] at htracks
  rw [Program.labels, List.flatMap_append]
  exact htracks

/-- A named constraint brings its demands. -/
theorem addNamedConstraint_follows (h : Follows bounds ⟨minimises, demands, []⟩ layout model)
    (hname : ∀ side, (name, side) ∉ demands.flatMap Demand.labels) (json : Json) :
    Ends (addNamedConstraint bounds name json model)
      (fun bounds' model' => ∃ layout', Follows bounds'
        ⟨minimises, demands ++ Demand.ofEntry (name, json), []⟩ layout' model')
      fun _ _ => True := by
  apply ends_check
  intro weight hweight
  apply ends_check
  intro priority hpriority
  have hpenalty := Json.penalty?_eq (inContext_eq_ok hweight) (inContext_eq_ok hpriority)
  apply ends_check
  intro equal hequal
  rw [Demand.ofEntry, Json.number?_of_optionalNumberField hequal]
  cases equal with
  | some rhs => exact addEquality_follows h hpenalty hname rhs
  | none =>
    apply ends_check
    intro lower hlower
    apply (addSide_follows h hpenalty false (hname false) lower).bind
    rintro bounds' model' ⟨layout', h'⟩
    apply ends_check
    intro upper hupper
    rw [Json.number?_of_optionalNumberField hlower, Json.number?_of_optionalNumberField hupper,
      ← List.append_assoc]
    apply addSide_follows h' hpenalty true
    rw [List.flatMap_append, List.mem_append, not_or]
    refine ⟨hname true, ?_⟩
    cases lower <;> simp [Demand.labels]

end Demands

/-! ## Items -/

section Items

variable {bounds : Bounds} {item : Item} {index : Nat} {objective name : String}

section Rows

variable {terms : String → Bool → List (Term Float)} {demands : List Demand}
  {caps : List (Constraint Float)} {label : String × Bool}

/-- The slacks of a list of rows with the bounds on binary variables tell the labels of the
rows apart. -/
theorem IsQuiet.label_injective (h : model.IsQuiet)
    (hvalues : model.constraints.values = layout.rows terms demands ++ caps)
    (hlength : demands.length = layout.relaxers.length) {other : String × Bool}
    (hlabel : label ∈ demands.flatMap Demand.labels)
    (hother : other ∈ demands.flatMap Demand.labels)
    (heq : layout.slack other.1 other.2 = layout.slack label.1 label.2) : other = label := by
  have hnodup := h.slacks_nodup
  rw [← h.map_slack_values, hvalues, List.map_append, Layout.map_slack_rows hlength] at hnodup
  exact List.inj_on_of_nodup_map hnodup.of_append_left hother hlabel heq

/-- The terms of the row of a label are those of its relaxation and of its items. -/
theorem IsQuiet.row_fresh {constraint : Constraint Float} (h : model.IsQuiet)
    (hvalues : model.constraints.values = layout.rows terms demands ++ caps)
    (hlength : demands.length = layout.relaxers.length)
    (hlabel : label ∈ demands.flatMap Demand.labels)
    (hrow : constraint ∈ layout.rows terms demands)
    (hslack : constraint.slack = layout.slack label.1 label.2)
    (hrelaxers : some index ∉ layout.relaxers)
    (hterms : ∀ term ∈ terms label.1 label.2, term.index ≠ index) :
    ∀ term ∈ constraint.terms, term.index ≠ index := by
  obtain ⟨demand, hdemand, relaxer, hrelaxer, bound, hbound, rfl⟩ := Layout.mem_rows hrow
  have hsame := h.label_injective hvalues hlength hlabel
    (List.mem_flatMap.2 ⟨demand, hdemand, List.mem_map_of_mem hbound⟩) hslack
  rw [← hsame] at hterms
  intro term hterm
  rcases List.mem_append.1 hterm with hrelaxerTerm | hitemTerm
  · obtain ⟨other, hother, rfl⟩ := List.mem_map.1 hrelaxerTerm
    rintro rfl
    rw [Option.mem_toList] at hother
    exact hrelaxers (hother ▸ hrelaxer)
  · exact hterms term hitemTerm

/-- A term for the row of a label leaves the bounds on binary variables as they are. -/
theorem IsQuiet.values_push (h : model.IsQuiet)
    (hvalues : model.constraints.values = layout.rows terms demands ++ caps)
    (hlength : demands.length = layout.relaxers.length)
    (hlabel : label ∈ demands.flatMap Demand.labels) (term : Term Float) :
    (model.constraints.modify (layout.slack label.1 label.2) fun other => other.push term).values =
      layout.rows (Layout.pushTerm terms label term) demands ++ caps := by
  have hnodup := h.slacks_nodup
  rw [← h.map_slack_values, hvalues, List.map_append, List.nodup_append,
    Layout.map_slack_rows hlength] at hnodup
  have hcaps : ∀ cap ∈ caps, cap.slack ≠ layout.slack label.1 label.2 := by
    intro cap hcap heq
    exact hnodup.2.2 _ (List.mem_map_of_mem hlabel) _ (List.mem_map_of_mem hcap) heq.symm
  rw [h.values_modify, hvalues, List.map_append,
    Layout.map_push_rows fun other hother => h.label_injective hvalues hlength hlabel hother,
    List.map_congr_left fun cap hcap => if_neg (hcaps cap hcap), List.map_id']

/-- The term of a variable in the bound of one side of a constraint, if there is one. -/
theorem addNamedTerm_grows (hquiet : model.IsQuiet) (hunloaded : model.isLoaded = false)
    (hindex : index ∈ model.indices)
    (hvalues : model.constraints.values = layout.rows terms demands ++ caps)
    (hlength : demands.length = layout.relaxers.length)
    (htracks : bounds.Tracks (demands.flatMap Demand.labels) layout.slack)
    (label : String × Bool) (hrelaxers : some index ∉ layout.relaxers)
    (hterms : ∀ term ∈ terms label.1 label.2, term.index ≠ index) (coefficient : Float) :
    ∃ model', addNamedTerm (bounds.side label.2) label.1 coefficient index model =
        .ok () model' ∧ Grows model model' [] ∧
      model'.constraints.values = layout.rows
        (Layout.pushTerm terms label ⟨index, unsignedZero coefficient⟩) demands ++ caps := by
  by_cases hlabel : label ∈ demands.flatMap Demand.labels
  · obtain ⟨constraint, hrow, hslack⟩ := Layout.exists_row hlength hlabel
    have hmem : constraint ∈ model.constraints.values := by
      rw [hvalues]
      exact List.mem_append_left _ hrow
    obtain ⟨model', hadd, hgrows, hconstraints⟩ := addTerm_grows hquiet hunloaded hindex hmem
      (hquiet.row_fresh hvalues hlength hlabel hrow hslack hrelaxers hterms) coefficient
    refine ⟨model', ?_, hgrows, ?_⟩
    · rw [addNamedTerm, htracks.found label hlabel, ← hslack]
      exact hadd
    · rw [hconstraints, hslack, float_zero_add]
      exact hquiet.values_push hvalues hlength hlabel _
  · refine ⟨model, ?_, .refl hquiet hunloaded, ?_⟩
    · rw [addNamedTerm, htracks.absent label hlabel]
      rfl
    · have hrows : layout.rows
          (Layout.pushTerm terms label ⟨index, unsignedZero coefficient⟩) demands =
            layout.rows terms demands := by
        apply Layout.rows_congr rfl
        intro other hother
        refine ⟨rfl, if_neg ?_⟩
        rintro rfl
        exact hlabel hother
      rw [hvalues, hrows]

end Rows

/-- The item with the coefficients of some attributes, the objective left out. -/
def partly (objective : String) (attributes : List (String × Json)) (item : Item) : Item :=
  { item with
    coefficient? := fun quantity =>
      if quantity = objective then none else (Json.object attributes).number? quantity }

/-- The index of the last item is neither a relaxation nor the index of another item. -/
theorem Realises.owner_fresh (h : model.Realises program (layout.push index)) :
    some index ∉ layout.relaxers ∧ index ∉ layout.owners := by
  have hnodup := h.indices_nodup
  rw [h.indices_eq, Layout.push, ← List.append_assoc, List.nodup_append] at hnodup
  have hne := fun other hother => hnodup.2.2 other hother index List.mem_cons_self
  refine ⟨fun hrelaxer => ?_, fun howner => ?_⟩
  · exact hne index (List.mem_append_left _ (List.reduceOption_mem_iff.2 hrelaxer)) rfl
  · exact hne index (List.mem_append_right _ howner) rfl

theorem Realises.length_owners_push
    (h : model.Realises (program.push item) (layout.push index)) :
    program.items.length = layout.owners.length := by
  simpa [Program.push, Layout.push] using h.length_owners

/-- The terms of a coefficient make it a coefficient of the last item. -/
theorem addNamedTerms_follows {quantity : String}
    (h : Follows bounds (program.push item) (layout.push index) model)
    (hnone : item.coefficient? quantity = none) (coefficient : Float) :
    Ends ((do
        addNamedTerm bounds.lower quantity coefficient index
        addNamedTerm bounds.upper quantity coefficient index : Action Float Unit) model)
      (fun _ => Follows bounds (program.push { item with
        coefficient? := fun other =>
          if other = quantity then some coefficient else item.coefficient? other })
        (layout.push index)) fun _ _ => True := by
  obtain ⟨hrelaxers, howner⟩ := h.toRealises.owner_fresh
  have hlength := h.toRealises.length_owners_push
  have hindex : index ∈ model.indices := by
    rw [h.indices_eq]
    exact List.mem_append_right _ (List.mem_append_right _ List.mem_cons_self)
  have hterms : ∀ term ∈ (layout.push index).terms (program.items ++ [item]) quantity,
      term.index ≠ index := by
    intro term hterm
    rw [Layout.terms_push item index quantity hlength, hnone] at hterm
    rintro rfl
    exact howner (Layout.mem_terms (by simpa using hterm))
  obtain ⟨middle, hlower, hgrowsLower, hvaluesLower⟩ := addNamedTerm_grows h.toIsQuiet h.unloaded
    hindex h.constraints_eq h.length_relaxers h.tracks (quantity, false) hrelaxers hterms
    coefficient
  obtain ⟨model', hupper, hgrowsUpper, hvaluesUpper⟩ := addNamedTerm_grows hgrowsLower.quiet
    hgrowsLower.unloaded (by rw [hgrowsLower.indices_eq, List.append_nil]; exact hindex)
    hvaluesLower h.length_relaxers h.tracks (quantity, true) hrelaxers
    (by simpa [Layout.pushTerm, Program.push] using hterms) coefficient
  have hrun : (do
      addNamedTerm bounds.lower quantity coefficient index
      addNamedTerm bounds.upper quantity coefficient index : Action Float Unit) model =
        .ok () model' := (bind_of_ok hlower).trans hupper
  rw [hrun]
  have htotal := hgrowsLower.trans hgrowsUpper
  refine ⟨h.toRealises.of_grows htotal rfl rfl ?_ rfl rfl ?_, htotal.unloaded,
    htotal.precision_eq.trans h.precision_eq, h.numbers.of_grows htotal, h.tracks⟩
  · simp [Program.push]
  · rw [hvaluesUpper, Layout.constraints_push layout _ index hlength, Program.push,
      Layout.caps_push item index hlength]
    refine congrArg₂ (· ++ ·) (congrArg (fun terms => layout.rows terms program.demands) ?_) rfl
    funext other side
    simp only [Layout.pushTerm, Layout.terms_push _ index _ hlength]
    by_cases hother : other = quantity
    · rw [hother]
      cases side <;> simp [hnone]
    · simp [hother]

/-- One more attribute gives the last item one more coefficient, unless it is the objective. -/
theorem addAttribute_follows {attributes : List (String × Json)} {quantity : String}
    (h : Follows bounds (program.push (partly objective attributes item)) (layout.push index) model)
    (hfresh : quantity ∉ attributes.map Prod.fst) (value : Json) :
    Ends (addAttribute objective bounds name index quantity value model)
      (fun _ => Follows bounds (program.push (partly objective (attributes ++ [(quantity, value)])
        item)) (layout.push index)) fun _ _ => True := by
  by_cases hobjective : quantity = objective
  · have hrun : addAttribute objective bounds name index quantity value model =
        .ok () model := by
      rw [addAttribute, if_neg (by simp [hobjective])]
      rfl
    have hsame : partly objective (attributes ++ [(quantity, value)]) item =
        partly objective attributes item := by
      rw [partly, partly]
      congr 1
      funext other
      rw [Json.number?_append hfresh, hobjective]
      split <;> rfl
    rw [hrun, hsame]
    exact h
  · rw [addAttribute, if_pos (by simpa using hobjective)]
    apply ends_check
    intro coefficient hcoefficient
    have hnone : (partly objective attributes item).coefficient? quantity = none := by
      rw [partly]
      dsimp only
      rw [if_neg hobjective, Json.number?_of_not_mem hfresh]
    have hnext : partly objective (attributes ++ [(quantity, value)]) item =
        { partly objective attributes item with
          coefficient? := fun other => if other = quantity then some coefficient
            else (partly objective attributes item).coefficient? other } := by
      rw [partly, partly]
      congr 1
      funext other
      rw [Json.number?_append hfresh, inContext_eq_ok hcoefficient]
      by_cases hother : other = quantity
      · rw [hother, if_neg hobjective, if_pos rfl, if_pos rfl]
        rfl
      · rw [if_neg hother, if_neg hother]
    rw [hnext]
    exact addNamedTerms_follows h hnone coefficient

def addAttributes (objective : String) (bounds : Bounds) (name : String) (index : Nat) :
    Json → Action Float Unit
  | .object attributes => attributes.forM fun (quantity, value) =>
    addAttribute objective bounds name index quantity value
  | _ => raise (.wrongVariable name)

/-- The attributes of a variable give its item all coefficients but that of the objective. -/
theorem addAttributes_follows {description json : Json} (hproper : json.IsProper)
    (h : Follows bounds (program.push (partly objective []
      (Item.ofEntry objective description (name, json)))) (layout.push index) model) :
    Ends (addAttributes objective bounds name index json model)
      (fun _ => Follows bounds (program.push
        ((Item.ofEntry objective description (name, json)).blindTo objective))
        (layout.push index)) fun _ _ => True := by
  cases hproper with
  | @object attributes hnodup _ =>
    let item := Item.ofEntry objective description (name, .object attributes)
    apply Ends.forM_prefixes _
      (fun done => Follows bounds (program.push (partly objective done item)) (layout.push index))
      attributes _ model h
    rintro done ⟨quantity, value⟩ rest hattributes state hstate
    apply addAttribute_follows hstate
    rw [hattributes, List.map_append, List.map_cons, List.nodup_middle, List.nodup_cons] at hnodup
    exact fun hmem => hnodup.1 (List.mem_append_left _ hmem)
  | _ => trivial

/-- A new variable is an item without a bound and without coefficients. -/
theorem addVariable_follows (h : Follows bounds program layout model) (item : Item)
    (hbinary : item.isBinary = false) (hnone : ∀ quantity, item.coefficient? quantity = none) :
    ∃ index model', addVariable item.declaration model = .ok index model' ∧
      Follows bounds (program.push item) (layout.push index) model' := by
  obtain ⟨index, model', hadd, hgrows, hconstraints, hlookup⟩ :=
    addVariable_grows h.toIsQuiet h.unloaded item.declaration
  have hlength := h.length_owners
  refine ⟨index, model', hadd, ⟨hgrows.quiet, ?_, ?_, ?_, ?_, ?_⟩, hgrows.unloaded,
    hgrows.precision_eq.trans h.precision_eq, h.numbers.of_grows hgrows, h.tracks⟩
  · rw [hgrows.minimises_eq, h.minimises_eq]
    rfl
  · rw [hgrows.indices_eq, h.indices_eq, List.append_assoc]
    rfl
  · rw [hconstraints, h.constraints_eq, Layout.constraints_push layout item index hlength]
    simp [hbinary, hnone, Layout.constraints]
  · exact h.relaxers_fit.imp fun _ _ => hgrows.relaxes
  · rw [Program.push, List.map_append]
    exact List.rel_append (h.owners_fit.imp fun _ _ => hgrows.lookup?_of_some)
      (.cons hlookup .nil)

/-- The bound on a binary variable. -/
theorem addCap_follows (h : Follows bounds (program.push item) (layout.push index) model)
    (hbinary : item.isBinary = false) :
    ∃ slack middle model', atMost 1.0 model = .ok (.inequality slack) middle ∧
      addTerm (.inequality slack) 1.0 index middle = .ok () model' ∧ Follows bounds
        (program.push { item with isBinary := true }) ((layout.withCap index slack).push index)
        model' := by
  obtain ⟨-, howner⟩ := h.toRealises.owner_fresh
  have hlength := h.toRealises.length_owners_push
  obtain ⟨slack, middle, hadd, hgrows, hvalues⟩ :=
    addInequality_grows h.toIsQuiet h.unloaded 1.0 true
  have hatMost : atMost 1.0 model = .ok (.inequality slack) middle := bind_of_ok hadd
  have hindex : index ∈ middle.indices := by
    rw [hgrows.indices_eq, List.append_nil, h.indices_eq]
    exact List.mem_append_right _ (List.mem_append_right _ List.mem_cons_self)
  obtain ⟨model', hterm, hgrows', hconstraints⟩ := addTerm_grows hgrows.quiet hgrows.unloaded
    hindex (by rw [hvalues]; exact List.mem_append_right _ List.mem_cons_self)
    (fun term hterm => absurd hterm List.not_mem_nil) (1.0 : Float)
  have htotal := hgrows.trans hgrows'
  refine ⟨slack, middle, model', hatMost, hterm,
    h.toRealises.of_grows htotal rfl rfl ?_ rfl rfl ?_, htotal.unloaded,
    htotal.precision_eq.trans h.precision_eq, h.numbers.of_grows htotal, h.tracks⟩
  · simp [Program.push]
  · rw [hconstraints, hgrows.quiet.values_modify_middle hvalues, h.constraints_eq,
      Layout.constraints_push layout item index hlength,
      Layout.constraints_push (layout.withCap index slack) _ index hlength,
      Layout.caps_withCap howner, List.append_assoc, List.append_assoc, hbinary]
    have hcap : (Constraint.bound slack (1.0 : Float) true).push ⟨index, 0 + 1.0⟩ =
        ⟨(layout.withCap index slack).cap index, 1, true, [⟨index, 1⟩], none⟩ := by
      have hslack : (layout.withCap index slack).cap index = slack := if_pos rfl
      have hone : (1.0 : Float) = 1 := by decide +kernel
      have hsum : (0 : Float) + 1 = 1 := by decide +kernel
      rw [hslack, hone, hsum]
      rfl
    exact congrArg₂ (· ++ ·) rfl (congrArg₂ (· ++ ·) rfl (congrArg (fun cap => [cap]) hcap))

/-- A named variable brings its item, which knows nothing of the objective but its cost. -/
theorem addNamedVariable_follows {description json : Json} {flags : Flags}
    (h : Follows bounds program layout model)
    (hintegers : ∀ name, flags.integers.contains name = description.flags "ints" name)
    (hbinaries : ∀ name, flags.binaries.contains name = description.flags "binaries" name)
    (hfree : ∀ name, flags.free.contains name = description.flags "unrestricted" name)
    (hproper : json.IsProper) :
    Ends (addNamedVariable objective bounds flags name json model)
      (fun _ model' => ∃ layout', Follows bounds (program.push
        ((Item.ofEntry objective description (name, json)).blindTo objective)) layout' model')
      fun _ _ => True := by
  apply ends_check
  intro cost hcost
  let item := Item.ofEntry objective description (name, json)
  let bare : Item := { partly objective [] item with isBinary := false }
  have hdeclaration : bare.declaration =
      { cost := cost
        name := some name
        isInteger := flags.binaries.contains name || flags.integers.contains name
        isFree := flags.free.contains name
        priority := .required } := by
    rw [hbinaries, hintegers, hfree, ← Json.cost_of_readCost hcost, Bool.or_comm]
    rfl
  have hnone (quantity : String) : bare.coefficient? quantity = none := ite_self none
  obtain ⟨index, middle, hadd, hmiddle⟩ := addVariable_follows h bare rfl hnone
  rw [hdeclaration] at hadd
  rw [bind_of_ok hadd]
  cases hbinary : flags.binaries.contains name with
  | true =>
    obtain ⟨slack, first, last, hatMost, hterm, hlast⟩ := addCap_follows hmiddle rfl
    have hitem : { bare with isBinary := true } = partly objective [] item := by
      rw [hbinaries] at hbinary
      rw [← hbinary]
      rfl
    rw [hitem] at hlast
    have hrun : (do
        let reference ← atMost 1.0
        addTerm reference 1.0 index
        addAttributes objective bounds name index json : Action Float Unit) middle =
          addAttributes objective bounds name index json last :=
      (bind_of_ok hatMost).trans (bind_of_ok hterm)
    change Ends ((do
        let reference ← atMost 1.0
        addTerm reference 1.0 index
        addAttributes objective bounds name index json : Action Float Unit) middle) _ _
    rw [hrun]
    exact (addAttributes_follows hproper hlast).success fun _ _ h => ⟨_, h⟩
  | false =>
    have hitem : bare = partly objective [] item := by
      rw [hbinaries] at hbinary
      change { partly objective [] item with isBinary := false } = _
      rw [← hbinary]
      rfl
    rw [hitem] at hmiddle
    exact (addAttributes_follows hproper hmiddle).success fun _ _ h => ⟨_, h⟩

end Items

/-! ## Descriptions -/

/-- The model that a description starts from has nothing in it. -/
theorem start_follows (options : Options Float) (minimises : Bool) :
    Follows ⟨[], []⟩ ⟨minimises, [], []⟩ ⟨fun _ _ => 0, [], [], fun _ => 0⟩
      ((empty standardPrecision options).setDirection minimises) := by
  have hsound := setDirection_sound (empty_isQuiet standardPrecision options).isSound minimises
  have hquiet := hsound.isQuiet
  have hnumbers (model : Model Float) (hnext : model.nextRelaxation = 1) :
      model.Numbers (List.reduceOption []) :=
    ⟨fun _ hindex => absurd hindex List.not_mem_nil, hnext, rfl⟩
  have htracks : Bounds.Tracks ⟨[], []⟩ [] fun _ _ => 0 := by
    refine ⟨fun _ hlabel => absurd hlabel List.not_mem_nil, fun label _ => ?_⟩
    cases label.2 <;> rfl
  cases minimises with
  | true =>
    rw [quiet_eq rfl] at hquiet
    exact ⟨⟨hquiet, rfl, rfl, rfl, .nil, .nil⟩, rfl, rfl, hnumbers _ rfl, htracks⟩
  | false =>
    rw [quiet_eq rfl] at hquiet
    exact ⟨⟨hquiet, rfl, rfl, rfl, .nil, .nil⟩, rfl, rfl, hnumbers _ rfl, htracks⟩

/-- A name that has not been read yet labels no bound. -/
theorem label_fresh {done rest : List (String × Json)} {entry : String × Json}
    (hnodup : ((done ++ entry :: rest).map Prod.fst).Nodup) (side : Bool) :
    (entry.1, side) ∉ (done.flatMap Demand.ofEntry).flatMap Demand.labels := by
  rw [List.map_append, List.map_cons, List.nodup_middle, List.nodup_cons] at hnodup
  intro hlabel
  obtain ⟨demand, hdemand, hbound⟩ := List.mem_flatMap.1 hlabel
  obtain ⟨other, hother, hofEntry⟩ := List.mem_flatMap.1 hdemand
  obtain ⟨hquantity, -⟩ := Demand.mem_ofEntry hofEntry
  obtain ⟨bound, -, hsame⟩ := List.mem_map.1 hbound
  injection hsame with hname
  apply hnodup.1
  rw [← hname, hquantity]
  exact List.mem_append_left _ (List.mem_map_of_mem hother)

theorem foldlM_addNamedConstraint_follows {minimises : Bool} {entries : List (String × Json)}
    (h : Follows ⟨[], []⟩ ⟨minimises, [], []⟩ layout model)
    (hnodup : (entries.map Prod.fst).Nodup) :
    Ends ((entries.foldlM (fun bounds (name, value) => addNamedConstraint bounds name value)
        ⟨[], []⟩ : Action Float Bounds) model)
      (fun bounds model' => ∃ layout', Follows bounds
        ⟨minimises, entries.flatMap Demand.ofEntry, []⟩ layout' model') fun _ _ => True := by
  apply Ends.foldlM_prefixes _ (fun done bounds model => ∃ layout,
    Follows bounds ⟨minimises, done.flatMap Demand.ofEntry, []⟩ layout model) entries _ _ model
    ⟨layout, h⟩
  rintro done ⟨name, value⟩ rest hentries bounds state ⟨layout, h⟩
  rw [hentries] at hnodup
  rw [List.flatMap_append, List.flatMap_singleton]
  exact addNamedConstraint_follows h (label_fresh hnodup) value

theorem forM_addNamedVariable_follows {bounds : Bounds} {json : Json} {flags : Flags}
    {objective : String} {entries : List (String × Json)} {minimises : Bool}
    {demands : List Demand} (h : Follows bounds ⟨minimises, demands, []⟩ layout model)
    (hintegers : ∀ name, flags.integers.contains name = json.flags "ints" name)
    (hbinaries : ∀ name, flags.binaries.contains name = json.flags "binaries" name)
    (hfree : ∀ name, flags.free.contains name = json.flags "unrestricted" name)
    (hproper : ∀ entry ∈ entries, entry.2.IsProper) :
    Ends ((entries.forM fun (name, value) =>
        addNamedVariable objective bounds flags name value : Action Float Unit) model)
      (fun _ model' => ∃ layout', Follows bounds ⟨minimises, demands, entries.map fun entry =>
        (Item.ofEntry objective json entry).blindTo objective⟩ layout' model')
      fun _ _ => True := by
  apply Ends.forM_prefixes _ (fun done model => ∃ layout,
    Follows bounds ⟨minimises, demands, done.map fun entry =>
      (Item.ofEntry objective json entry).blindTo objective⟩ layout model) entries _ model
    ⟨layout, h⟩
  rintro done ⟨name, value⟩ rest hentries state ⟨layout, h⟩
  rw [List.map_append]
  exact addNamedVariable_follows h hintegers hbinaries hfree
    (hproper _ (by rw [hentries]; exact List.mem_append_right _ List.mem_cons_self))

/-- Filling a model reads all demands and then all items. -/
theorem fill_follows {json : Json} {objective : String} {minimises : Bool} (hproper : json.IsProper)
    (h : Follows ⟨[], []⟩ ⟨minimises, [], []⟩ layout model) :
    Ends (fill objective json model)
      (fun _ model' => ∃ bounds layout', Follows bounds
        ⟨minimises, (json.entries "constraints").flatMap Demand.ofEntry,
          (json.entries "variables").map fun entry =>
            (Item.ofEntry objective json entry).blindTo objective⟩ layout' model')
      fun _ _ => True := by
  obtain ⟨hnames, -⟩ := hproper.entries "constraints"
  obtain ⟨-, hbodies⟩ := hproper.entries "variables"
  apply ends_check
  intro constraints hconstraints
  rw [← Json.entries_of_objectField (inContext_eq_ok hconstraints)]
  apply (foldlM_addNamedConstraint_follows h hnames).bind
  rintro bounds model ⟨layout, h⟩
  apply ends_check
  intro integers hintegers
  apply ends_check
  intro binaries hbinaries
  apply ends_check
  intro free hfree
  apply ends_check
  intro declarations hdeclarations
  rw [← Json.entries_of_objectField (inContext_eq_ok hdeclarations)]
  exact (forM_addNamedVariable_follows h (Json.contains_of_flagsField hintegers)
    (Json.contains_of_flagsField hbinaries) (Json.contains_of_flagsField hfree) hbodies).success
      fun _ _ h => ⟨bounds, h⟩

theorem minimises_of_readDirection {json : Json} {minimises : Bool}
    (h : readDirection json = .ok minimises) (objective : String) :
    minimises = (Program.described objective json).minimises := by
  rw [Program.described]
  dsimp only
  unfold readDirection at h
  split at h
  · rename_i hdirection
    rw [hdirection]
    injection h with hminimises
    exact hminimises.symm
  · rename_i hdirection
    rw [hdirection]
    injection h with hminimises
    exact hminimises.symm
  · cases h
  · rename_i hdirection
    rw [hdirection]
    injection h with hminimises
    exact hminimises.symm

/-- A program without the coefficients for an attribute is realised in the same way as the
program itself just when no bound needs them. -/
theorem realises_iff_of_blindTo {objective : String}
    (h : model.Realises (program.blindTo objective) layout)
    (hbounds : ∀ demand ∈ program.demands, demand.bounds ≠ []) :
    model.Realises program layout ↔
      ∀ demand ∈ program.demands, demand.quantity = objective →
        ∀ item ∈ program.items, item.coefficient? objective = none := by
  have hlength : program.items.length = layout.owners.length := by
    simpa [Program.blindTo] using h.length_owners
  rw [← Layout.terms_eq_nil_iff hlength]
  constructor
  · intro hfull demand hdemand hquantity
    obtain ⟨bound, hbound⟩ := List.exists_mem_of_ne_nil _ (hbounds demand hdemand)
    obtain ⟨relaxer, hrow⟩ := Layout.exists_mem_rows h.length_relaxers hdemand
    -- both programs have a row for the bound, and its slack belongs to one constraint only
    have hmem (program' : Program) (hdemands : program'.demands = program.demands)
        (hrealises : model.Realises program' layout) :
        layout.row (fun quantity _ => layout.terms program'.items quantity) demand relaxer bound ∈
          model.constraints.values := by
      rw [hrealises.constraints_eq, Layout.constraints, hdemands]
      exact List.mem_append_left _ (hrow _ bound hbound)
    have hsame := h.slack_injective (hmem program rfl hfull)
      (hmem (program.blindTo objective) rfl h) rfl
    have hterms : layout.terms (program.items.map (Item.blindTo objective)) demand.quantity =
        layout.terms program.items demand.quantity :=
      List.append_cancel_left (congrArg Constraint.terms hsame)
    rw [Layout.terms_blindTo, if_pos hquantity] at hterms
    rw [← hquantity]
    exact hterms.symm
  · intro hnone
    have hconstraints : layout.constraints (program.blindTo objective) =
        layout.constraints program := by
      rw [Layout.constraints, Layout.constraints, Program.blindTo, Layout.caps_blindTo]
      refine congrArg₂ (· ++ ·) (Layout.rows_congr rfl ?_) rfl
      intro label hlabel
      refine ⟨rfl, (Layout.terms_blindTo objective label.1).trans ?_⟩
      split
      · rename_i hquantity
        obtain ⟨demand, hdemand, hbound⟩ := List.mem_flatMap.1 hlabel
        obtain ⟨bound, -, rfl⟩ := List.mem_map.1 hbound
        rw [hquantity, hnone demand hdemand hquantity]
      · rfl
    refine ⟨h.toIsQuiet, h.minimises_eq, h.indices_eq, ?_, h.relaxers_fit, ?_⟩
    · rw [h.constraints_eq, hconstraints]
    · have howners := h.owners_fit
      rw [Program.blindTo, List.map_map] at howners
      exact howners

theorem field_of_readObjective {json : Json} {objective : String}
    (h : readObjective json = .ok objective) : json.field "optimize" = .string objective := by
  cases hfield : json.field "optimize" with
  | string name =>
    rw [readObjective, hfield] at h
    injection h with hname
    rw [hname]
  | _ =>
    rw [readObjective, hfield] at h
    cases h

theorem ofJson_eq_ok {json : Json} (h : ofJson json = .ok model) :
    ∃ objective options minimises, json.field "optimize" = .string objective ∧
      readDirection json = .ok minimises ∧
      fill objective json ((empty standardPrecision options).setDirection minimises) =
        .ok () model := by
  cases hobjective : readObjective json with
  | error fault =>
    rw [ofJson, hobjective] at h
    cases h
  | ok objective =>
    cases hoptions : readOptions json with
    | error fault =>
      rw [ofJson, hobjective, hoptions] at h
      cases h
    | ok options =>
      cases hdirection : readDirection json with
      | error fault =>
        rw [ofJson, hobjective, hoptions, hdirection] at h
        cases h
      | ok minimises =>
        rw [ofJson, hobjective, hoptions, hdirection] at h
        refine ⟨objective, options, minimises, field_of_readObjective hobjective, rfl, ?_⟩
        cases hfill : fill objective json
          ((empty standardPrecision options).setDirection minimises) with
        | ok result filled =>
          simp only [bind, Except.bind, hfill] at h
          injection h with hmodel
          rw [hmodel]
        | error fault filled =>
          simp only [bind, Except.bind, hfill] at h
          cases h

/-- The model of an accepted description realises the program without the coefficients for
the objective. -/
theorem exists_follows_of_ofJson {json : Json} (hproper : json.IsProper)
    (hmodel : ofJson json = .ok model) :
    ∃ objective bounds layout, json.field "optimize" = .string objective ∧
      Follows bounds ((Program.described objective json).blindTo objective) layout model := by
  obtain ⟨objective, options, minimises, hobjective, hdirection, hfill⟩ := ofJson_eq_ok hmodel
  obtain ⟨bounds, layout, hfollows⟩ :=
    (fill_follows hproper (start_follows options minimises)).of_ok hfill
  have hitems : ((Program.described objective json).blindTo objective).items =
      (json.entries "variables").map fun entry =>
        (Item.ofEntry objective json entry).blindTo objective := List.map_map
  rw [minimises_of_readDirection hdirection objective, ← hitems] at hfollows
  exact ⟨objective, bounds, layout, hobjective, hfollows⟩

/-- The program that an accepted description declares is the one its model realises, except
that no variable has a coefficient in the bounds on the objective itself: these are built, but
the attribute is read as the cost alone. -/
theorem ofJson_realises {json : Json} (hproper : json.IsProper) (hmodel : ofJson json = .ok model) :
    ∃ objective layout, json.field "optimize" = .string objective ∧
      model.Realises ((Program.described objective json).blindTo objective) layout ∧
      (model.Realises (Program.described objective json) layout ↔
        ∀ demand ∈ (Program.described objective json).demands, demand.quantity = objective →
          ∀ item ∈ (Program.described objective json).items,
            item.coefficient? objective = none) := by
  obtain ⟨objective, bounds, layout, hobjective, hfollows⟩ :=
    exists_follows_of_ofJson hproper hmodel
  have hrealises := hfollows.toRealises
  refine ⟨objective, layout, hobjective, hrealises, realises_iff_of_blindTo hrealises ?_⟩
  intro demand hdemand
  obtain ⟨entry, -, hentry⟩ := List.mem_flatMap.1 hdemand
  exact (Demand.mem_ofEntry hentry).2

/-- The same for a text, in which keys may well be repeated. -/
theorem ofText_realises_blindTo {text : String} (hmodel : ofText text = .ok model) :
    ∃ json objective layout, Json.parse? text = some json ∧
      json.field "optimize" = .string objective ∧
      model.Realises ((Program.described objective json).blindTo objective) layout := by
  rw [ofText] at hmodel
  cases hjson : Json.parse? text with
  | some json =>
    rw [hjson] at hmodel
    obtain ⟨objective, bounds, layout, hobjective, hfollows⟩ :=
      exists_follows_of_ofJson (Json.isProper_of_parse? hjson) hmodel
    exact ⟨json, objective, layout, rfl, hobjective, hfollows.toRealises⟩
  | none =>
    rw [hjson] at hmodel
    cases hmodel

/-- A description with a soft equality, a range and a binary variable. -/
def rangeDescription : Json :=
  .object [("optimize", .string "profit"), ("opType", .string "max"),
    ("constraints", .object [
      ("total", .object [("equal", .number (.whole 2)), ("weight", .number (.whole 3))]),
      ("wood", .object [("min", .number (.whole 1)), ("max", .string "4")])]),
    ("variables", .object [
      ("x", .object [("profit", .number (.whole 1)), ("total", .number (.whole 1))]),
      ("y", .object [("wood", .number (.whole 2)), ("total", .number (.whole 1))])]),
    ("binaries", .array [.string "y"])]

theorem ofJson_realises_rangeDescription :
    rangeDescription.IsProper ∧ ∃ model layout, ofJson rangeDescription = .ok model ∧
      model.Realises (Program.described "profit" rangeDescription) layout := by
  have hproper : rangeDescription.IsProper := by simp [rangeDescription]
  have haccepted : (ofJson rangeDescription).isOk = true := by decide +kernel
  have hquantities : (Program.described "profit" rangeDescription).demands.map Demand.quantity =
      ["total", "wood", "wood"] := by decide +kernel
  cases hmodel : ofJson rangeDescription with
  | ok model =>
    obtain ⟨objective, layout, hobjective, -, hiff⟩ := ofJson_realises hproper hmodel
    injection hobjective with hprofit
    rw [← hprofit] at hiff
    refine ⟨hproper, model, layout, rfl, hiff.2 fun demand hdemand hquantity => ?_⟩
    have hmem := List.mem_map_of_mem hdemand (f := Demand.quantity)
    rw [hquantities, hquantity] at hmem
    exact absurd hmem (by decide)
  | error fault =>
    rw [hmodel] at haccepted
    cases haccepted

def boundedObjective : Json :=
  .object [("optimize", .string "profit"), ("opType", .string "max"),
    ("constraints", .object [("profit", .object [("max", .number (.whole 4))])]),
    ("variables", .object [("x", .object [("profit", .number (.whole 1))])])]

/-- The bound on the objective is built without the variable that it is about. -/
theorem not_realises_boundedObjective :
    boundedObjective.IsProper ∧ ∃ model, ofJson boundedObjective = .ok model ∧
      ∀ layout, ¬ model.Realises (Program.described "profit" boundedObjective) layout := by
  have hproper : boundedObjective.IsProper := by simp [boundedObjective]
  have hterms : ((ofJson boundedObjective).toOption.map fun model =>
      model.constraints.values.map Constraint.terms) = some [[]] := by decide +kernel
  cases hmodel : ofJson boundedObjective with
  | ok model =>
    refine ⟨hproper, model, rfl, fun layout hrealises => ?_⟩
    have hconstraints : ∀ constraint ∈ model.constraints.values, constraint.terms = [] := by
      rw [hmodel] at hterms
      have hterms : model.constraints.values.map Constraint.terms = [[]] :=
        Option.some.inj hterms
      intro constraint hconstraint
      have hmem := List.mem_map_of_mem hconstraint (f := Constraint.terms)
      rw [hterms] at hmem
      exact List.mem_singleton.1 hmem
    obtain ⟨relaxer, hrow⟩ := Layout.exists_mem_rows hrealises.length_relaxers List.mem_cons_self
    have hnil := hconstraints _ (by
      rw [hrealises.constraints_eq]
      exact List.mem_append_left _ (hrow _ _ List.mem_cons_self))
    have hnone := (Layout.terms_eq_nil_iff hrealises.length_owners).1
      (List.append_eq_nil_iff.1 hnil).2 _ List.mem_cons_self
    revert hnone
    decide +kernel
  | error fault =>
    rw [hmodel] at hterms
    cases hterms

end Model

end MixedInteger
