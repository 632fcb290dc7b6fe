import Mathlib.Data.List.Nodup
import MixedInteger.Proofs.ModelSteps

/-!
# Models that grow

Before its tableau is built, an edit of a model only adds to what the model records.  Each
edit is described here by the variables it adds and by the list of constraints it leaves
behind; whatever was known about the variables before stays as it was.
-/

namespace MixedInteger

/-! ## Loops that build something up -/

namespace Ends

variable {ε σ β γ : Type} {failed : ε → σ → Prop}

/-- A loop over a list, with an invariant that knows which items have been dealt with. -/
theorem forM_prefixes (body : β → EStateM ε σ PUnit) (kept : List β → σ → Prop)
    (items : List β)
    (hbody : ∀ done item rest, items = done ++ item :: rest → ∀ state, kept done state →
      Ends (body item state) (fun _ => kept (done ++ [item])) failed)
    (state : σ) (hstate : kept [] state) :
    Ends (items.forM body state) (fun _ => kept items) failed := by
  suffices hrest : ∀ rest done, items = done ++ rest → ∀ state, kept done state →
      Ends (rest.forM body state) (fun _ => kept items) failed from
    hrest items [] rfl state hstate
  intro rest
  induction rest with
  | nil =>
    intro done hitems state hstate
    rw [List.append_nil] at hitems
    rw [hitems]
    exact hstate
  | cons item rest ih =>
    intro done hitems state hstate
    apply bind (hbody done item rest hitems state hstate)
    intro _ state' hstate'
    exact ih (done ++ [item]) (by rw [hitems, List.append_assoc]; rfl) state' hstate'

/-- The same for a loop that passes a result along. -/
theorem foldlM_prefixes (body : γ → β → EStateM ε σ γ) (kept : List β → γ → σ → Prop)
    (items : List β)
    (hbody : ∀ done item rest, items = done ++ item :: rest → ∀ result state,
      kept done result state → Ends (body result item state) (kept (done ++ [item])) failed)
    (result : γ) (state : σ) (hstate : kept [] result state) :
    Ends (items.foldlM body result state) (kept items) failed := by
  suffices hrest : ∀ rest done, items = done ++ rest → ∀ result state, kept done result state →
      Ends (rest.foldlM body result state) (kept items) failed from
    hrest items [] rfl result state hstate
  intro rest
  induction rest with
  | nil =>
    intro done hitems result state hstate
    rw [List.append_nil] at hitems
    rw [hitems]
    exact hstate
  | cons item rest ih =>
    intro done hitems result state hstate
    rw [List.foldlM_cons]
    apply bind (hbody done item rest hitems result state hstate)
    intro result' state' hstate'
    exact ih (done ++ [item]) (by rw [hitems, List.append_assoc]; rfl) result' state' hstate'

end Ends

/-! ## Constraints by their slack -/

theorem OrderedMap.modify_modify {ν : Type} (map : OrderedMap Nat ν) (key : Nat)
    (first second : ν → ν) :
    (map.modify key first).modify key second = map.modify key (second ∘ first) := by
  rw [modify, modify, List.map_map, modify]
  apply List.map_congr_left
  intro entry _
  by_cases hkey : entry.1 = key <;> simp [hkey]

namespace Constraint

variable {α : Type}

/-- A new variable gets its term after the others. -/
theorem writeTerm_of_fresh {terms : List (Term α)} {index : Nat}
    (hfresh : ∀ term ∈ terms, term.index ≠ index) (coefficient : α) :
    writeTerm terms index coefficient = terms ++ [⟨index, coefficient⟩] := by
  induction terms with
  | nil => rfl
  | cons term rest ih =>
    rw [List.forall_mem_cons] at hfresh
    rw [writeTerm, if_neg (by simpa using hfresh.1), ih hfresh.2]
    rfl

theorem coefficientOf?_of_fresh {constraint : Constraint α} {index : Nat}
    (hfresh : ∀ term ∈ constraint.terms, term.index ≠ index) :
    constraint.coefficientOf? index = none := by
  rw [coefficientOf?, Option.map_eq_none_iff, List.find?_eq_none]
  intro term hterm
  simpa using hfresh term hterm

def push (constraint : Constraint α) (term : Term α) : Constraint α :=
  { constraint with terms := constraint.terms ++ [term] }

def relaxedBy [Scalar α] (index : Nat) (constraint : Constraint α) : Constraint α :=
  { constraint.push ⟨index, if constraint.isUpperBound then -1 else 1⟩ with
    relaxation := some index }

end Constraint

namespace Model

variable {α : Type} {model model' model'' : Model α} {constraint : Constraint α}

theorem IsQuiet.constraint?_of_mem (h : model.IsQuiet)
    (hmem : constraint ∈ model.constraints.values) :
    model.constraint? constraint.slack = some constraint := by
  obtain ⟨entry, hentry, rfl⟩ := List.mem_map.1 hmem
  rw [(h.constraint_fits entry hentry).slack_eq, constraint?]
  cases hget : model.constraints.get? entry.1 with
  | none =>
    rw [OrderedMap.get?, Option.map_eq_none_iff, List.find?_eq_none] at hget
    exact absurd (hget entry hentry) (by simp)
  | some found =>
    rw [OrderedMap.eq_of_mem h.slacks_nodup (OrderedMap.mem_of_get? hget) hentry]

theorem IsQuiet.values_modify (h : model.IsQuiet) (slack : Nat)
    (change : Constraint α → Constraint α) :
    (model.constraints.modify slack change).values =
      model.constraints.values.map fun other =>
        if other.slack = slack then change other else other := by
  rw [OrderedMap.values, OrderedMap.modify, OrderedMap.values, List.map_map, List.map_map]
  apply List.map_congr_left
  intro entry hentry
  simp only [Function.comp, (h.constraint_fits entry hentry).slack_eq, beq_iff_eq]
  split <;> rfl

theorem IsQuiet.slack_injective (h : model.IsQuiet) {other : Constraint α}
    (hmem : constraint ∈ model.constraints.values) (hother : other ∈ model.constraints.values)
    (hslack : other.slack = constraint.slack) : other = constraint := by
  have hfound := h.constraint?_of_mem hother
  rw [hslack, h.constraint?_of_mem hmem, Option.some.injEq] at hfound
  exact hfound.symm

/-- Replacing the constraint of a slack is the same as changing it. -/
theorem IsQuiet.modify_eq (h : model.IsQuiet) (hmem : constraint ∈ model.constraints.values)
    (change : Constraint α → Constraint α) :
    model.constraints.modify constraint.slack (fun _ => change constraint) =
      model.constraints.modify constraint.slack change := by
  apply List.map_congr_left
  intro entry hentry
  by_cases hkey : entry.1 = constraint.slack
  · have hsame : entry.2 = constraint := h.slack_injective hmem (List.mem_map_of_mem hentry)
      ((h.constraint_fits entry hentry).slack_eq.trans hkey)
    rw [hsame]
  · simp only [beq_iff_eq, hkey, ↓reduceIte]

/-- Changing the constraint of a slack changes one constraint of the list. -/
theorem IsQuiet.values_modify_middle (h : model.IsQuiet) {before rest : List (Constraint α)}
    (hvalues : model.constraints.values = before ++ constraint :: rest)
    (change : Constraint α → Constraint α) :
    (model.constraints.modify constraint.slack change).values =
      before ++ change constraint :: rest := by
  have hnodup : (model.constraints.values.map Constraint.slack).Nodup := by
    rw [h.map_slack_values]
    exact h.slacks_nodup
  rw [hvalues, List.map_append, List.map_cons, List.nodup_middle, List.nodup_cons,
    ← List.map_append] at hnodup
  have hothers (other : Constraint α) (hother : other ∈ before ++ rest) :
      (if other.slack = constraint.slack then change other else other) = other := by
    refine if_neg fun heq => hnodup.1 ?_
    rw [← heq]
    exact List.mem_map_of_mem hother
  rw [h.values_modify, hvalues, List.map_append, List.map_cons, if_pos rfl,
    List.map_congr_left fun other hother => hothers other (List.mem_append_left rest hother),
    List.map_congr_left fun other hother => hothers other (List.mem_append_right before hother),
    List.map_id', List.map_id']

/-! ## Steps of growth -/

/-- A model that has not been built has got some more variables. -/
structure Grows (model model' : Model α) (fresh : List Nat) : Prop where
  quiet : model'.IsQuiet
  unloaded : model'.isLoaded = false
  precision_eq : model'.tableau.precision = model.tableau.precision
  nextRelaxation_eq : model'.nextRelaxation = model.nextRelaxation
  minimises_eq : model'.minimises = model.minimises
  indices_eq : model'.indices = model.indices ++ fresh
  lookup?_eq : ∀ index ∈ model.indices, model'.lookup? index = model.lookup? index

theorem Grows.refl (hquiet : model.IsQuiet) (hunloaded : model.isLoaded = false) :
    Grows model model [] :=
  ⟨hquiet, hunloaded, rfl, rfl, rfl, (List.append_nil _).symm, fun _ _ => rfl⟩

theorem Grows.trans {first second : List Nat} (hfirst : Grows model model' first)
    (hsecond : Grows model' model'' second) : Grows model model'' (first ++ second) where
  quiet := hsecond.quiet
  unloaded := hsecond.unloaded
  precision_eq := hsecond.precision_eq.trans hfirst.precision_eq
  nextRelaxation_eq := hsecond.nextRelaxation_eq.trans hfirst.nextRelaxation_eq
  minimises_eq := hsecond.minimises_eq.trans hfirst.minimises_eq
  indices_eq := by rw [hsecond.indices_eq, hfirst.indices_eq, List.append_assoc]
  lookup?_eq index hindex := by
    rw [hsecond.lookup?_eq index (by rw [hfirst.indices_eq]; exact List.mem_append_left _ hindex),
      hfirst.lookup?_eq index hindex]

/-- A change of the constraints alone. -/
theorem Grows.of_constraints {constraints : OrderedMap Nat (Constraint α)}
    (hunloaded : model.isLoaded = false)
    (hquiet : IsQuiet { model with constraints := constraints }) :
    Grows model { model with constraints := constraints } [] :=
  ⟨hquiet, hunloaded, rfl, rfl, rfl, (List.append_nil _).symm, fun _ _ => rfl⟩

theorem IsQuiet.lookup?_register (h : model.IsQuiet) {make : Nat → Variable α}
    (hmake : ∀ index, (make index).index = index) {index : Nat} (hindex : index ∈ model.indices) :
    (model.tableau.register make).2.lookup? index = model.tableau.lookup? index := by
  rw [Tableau.lookup?_register (hmake _), if_neg]
  rintro rfl
  exact h.allocate_fresh.1 hindex

variable [Scalar α]

theorem addInequality_grows (hquiet : model.IsQuiet) (hunloaded : model.isLoaded = false)
    (rhs : α) (isUpperBound : Bool) :
    ∃ slack model', addInequality rhs isUpperBound model = .ok slack model' ∧
      Grows model model' [] ∧ model'.constraints.values =
        model.constraints.values ++ [Constraint.bound slack rhs isUpperBound] := by
  refine ⟨_, _, addInequality_eq rhs isUpperBound model, ?_, ?_⟩
  · rw [quiet_eq hquiet.snapshot_eq]
    refine ⟨hquiet.withInequality rhs isUpperBound, hunloaded, ?_, rfl, rfl,
      (List.append_nil _).symm, ?_⟩
    · rw [withInequality, hunloaded]
      rfl
    intro index hindex
    have hlookup : model.tableau.registerSlack.2.lookup? index = model.tableau.lookup? index :=
      hquiet.lookup?_register (fun _ => rfl) hindex
    simp only [lookup?, withInequality, hunloaded, Bool.false_eq_true, ↓reduceIte, hlookup]
  · rw [quiet_eq hquiet.snapshot_eq, withInequality]
    dsimp only
    rw [OrderedMap.insert_of_not_mem hquiet.allocate_fresh.2, OrderedMap.values, List.map_append]
    rfl

theorem addVariable_grows (hquiet : model.IsQuiet) (hunloaded : model.isLoaded = false)
    (declaration : Declaration α) :
    ∃ index model', addVariable declaration model = .ok index model' ∧
      Grows model model' [index] ∧ model'.constraints = model.constraints ∧
      model'.lookup? index = some (declaration.toVariable index) := by
  have htableau : (model.withVariable declaration).tableau =
      (model.tableau.register declaration.toVariable).2 := by
    rw [withVariable, hunloaded]
    rfl
  refine ⟨_, _, addVariable_eq declaration model, ?_, rfl, ?_⟩
  · rw [quiet_eq hquiet.snapshot_eq]
    refine ⟨hquiet.withVariable declaration, hunloaded, ?_, rfl, rfl, rfl, ?_⟩
    · rw [htableau]
      rfl
    intro index hindex
    have hmem : index ∈ (model.withVariable declaration).indices :=
      List.mem_append_left _ hindex
    rw [lookup?, lookup?, htableau, hquiet.lookup?_register (fun _ => rfl) hindex,
      if_pos (List.contains_iff_mem.2 hmem), if_pos (List.contains_iff_mem.2 hindex)]
  · rw [quiet_eq hquiet.snapshot_eq]
    have hmem : model.tableau.pool.allocate.1 ∈ (model.withVariable declaration).indices :=
      List.mem_append_right _ List.mem_cons_self
    rw [lookup?, htableau, if_pos (List.contains_iff_mem.2 hmem),
      Tableau.lookup?_register rfl, if_pos rfl]

section Terms

variable {index : Nat} (hquiet : model.IsQuiet) (hunloaded : model.isLoaded = false)
  (hindex : index ∈ model.indices) (hmem : constraint ∈ model.constraints.values)
  (hfresh : ∀ term ∈ constraint.terms, term.index ≠ index)

include hquiet hunloaded hindex hmem hfresh

/-- A variable that had no term in an inequality gets one. -/
theorem setInequalityCoefficient_grows (coefficient : α) :
    ∃ model', setInequalityCoefficient constraint.slack coefficient index model = .ok () model' ∧
      Grows model model' [] ∧ model'.constraints = model.constraints.modify constraint.slack
        fun other => other.push ⟨index, coefficient⟩ := by
  have hsome := hquiet.constraint?_of_mem hmem
  have hpush : constraint.setCoefficient index coefficient =
      constraint.push ⟨index, coefficient⟩ := by
    rw [Constraint.setCoefficient, Constraint.writeTerm_of_fresh hfresh, Constraint.push]
  have hfits := (hquiet.constraint_fits _ (OrderedMap.mem_of_get? hsome)).setCoefficient hindex
    coefficient
  rw [hpush] at hfits
  refine ⟨model.withConstraint constraint.slack (constraint.push ⟨index, coefficient⟩), ?_,
    .of_constraints hunloaded (hquiet.withConstraint hfits),
    hquiet.modify_eq hmem fun other => other.push ⟨index, coefficient⟩⟩
  rw [setInequalityCoefficient_of_some hsome, hunloaded, Bool.false_and,
    if_neg Bool.false_ne_true, quiet_eq hquiet.snapshot_eq, hpush]

theorem addTerm_grows (coefficient : α) :
    ∃ model', addTerm (.inequality constraint.slack) coefficient index model = .ok () model' ∧
      Grows model model' [] ∧ model'.constraints = model.constraints.modify constraint.slack
        fun other => other.push ⟨index, 0 + coefficient⟩ := by
  obtain ⟨model', hset, hgrows, hconstraints⟩ := setInequalityCoefficient_grows hquiet hunloaded
    hindex hmem hfresh (0 + coefficient)
  refine ⟨model', ?_, hgrows, hconstraints⟩
  have hbody : (do
      let found ← inequality constraint.slack
      let present := (found.coefficientOf? index).getD 0
      setInequalityCoefficient constraint.slack (present + coefficient) index : Action α Unit)
        model = .ok () model' := by
    rw [bind_of_ok (inequality_of_some (hquiet.constraint?_of_mem hmem)),
      Constraint.coefficientOf?_of_fresh hfresh]
    exact hset
  rw [addTerm, bind_of_ok (requireVariable_of_mem hindex)]
  exact bind_of_ok hbody

/-- A relaxation variable takes up the violation of an inequality. -/
theorem relaxInequality_grows :
    ∃ model', relaxInequality index constraint.slack model = .ok () model' ∧
      Grows model model' [] ∧ model'.constraints =
        model.constraints.modify constraint.slack (Constraint.relaxedBy index) := by
  obtain ⟨model', hset, hgrows, hconstraints⟩ := setInequalityCoefficient_grows hquiet hunloaded
    hindex hmem hfresh (if constraint.isUpperBound then -1 else 1)
  have hquiet' : IsQuiet { model' with
      constraints := model'.constraints.modify constraint.slack fun constraint =>
        { constraint with relaxation := some index } } := by
    apply hgrows.quiet.writeConstraint
    intro other hfits
    refine ⟨hfits.slack_eq, hfits.terms_mem, hfits.terms_nodup, ?_⟩
    rintro _ ⟨⟩
    rw [hgrows.indices_eq, List.append_nil]
    exact hindex
  refine ⟨_, ?_, hgrows.trans (.of_constraints hgrows.unloaded hquiet'), ?_⟩
  · rw [relaxInequality, bind_of_ok (inequality_of_some (hquiet.constraint?_of_mem hmem)),
      bind_of_ok hset]
    rfl
  · rw [hconstraints, OrderedMap.modify_modify, ← hquiet.modify_eq hmem,
      ← hquiet.modify_eq hmem (Constraint.relaxedBy index)]
    rfl

end Terms

/-- A relaxation variable takes up the violation of the last inequalities. -/
theorem forM_relaxInequality_grows {index : Nat} (soft before : List (Constraint α))
    (hquiet : model.IsQuiet) (hunloaded : model.isLoaded = false)
    (hindex : index ∈ model.indices) (hvalues : model.constraints.values = before ++ soft)
    (hfresh : ∀ constraint ∈ soft, ∀ term ∈ constraint.terms, term.index ≠ index) :
    ∃ model', (soft.map Constraint.slack).forM (relaxInequality index) model = .ok () model' ∧
      Grows model model' [] ∧
      model'.constraints.values = before ++ soft.map (Constraint.relaxedBy index) := by
  induction soft generalizing model before with
  | nil => exact ⟨model, rfl, .refl hquiet hunloaded, hvalues⟩
  | cons constraint rest ih =>
    rw [List.forall_mem_cons] at hfresh
    have hmem : constraint ∈ model.constraints.values := by
      rw [hvalues]
      exact List.mem_append_right _ List.mem_cons_self
    obtain ⟨middle, hfirst, hgrows, hconstraints⟩ :=
      relaxInequality_grows hquiet hunloaded hindex hmem hfresh.1
    have hmiddle : middle.constraints.values =
        (before ++ [constraint.relaxedBy index]) ++ rest := by
      rw [hconstraints, hquiet.values_modify_middle hvalues, List.append_assoc]
      rfl
    obtain ⟨model', hrest, hgrows', hvalues'⟩ := ih _ hgrows.quiet hgrows.unloaded
      (by rw [hgrows.indices_eq, List.append_nil]; exact hindex) hmiddle hfresh.2
    refine ⟨model', (forM_cons_of_ok hfirst).trans hrest, hgrows.trans hgrows', ?_⟩
    rw [hvalues', List.append_assoc]
    rfl

omit [Scalar α] in
theorem numbered_isQuiet (h : model.IsQuiet) : model.numbered.IsQuiet :=
  ⟨⟨h.pool, h.indices_nodup, h.slacks_nodup, h.apart, h.known_iff, h.integers_eq,
    h.slack_character, h.constraint_fits, h.sound⟩, h.snapshot_eq⟩

/-- The model that has numbered a relaxation, if there is one. -/
def numberedBy {β : Type} (model : Model β) (relaxer : Option Nat) : Model β :=
  { model with nextRelaxation := model.nextRelaxation + relaxer.toList.length }

omit [Scalar α] in
theorem Grows.numberedBy {fresh : List Nat} (h : Grows model model' fresh)
    (relaxer : Option Nat) :
    Grows (model.numberedBy relaxer) (model'.numberedBy relaxer) fresh where
  quiet := by
    cases relaxer with
    | none => exact h.quiet
    | some index => exact numbered_isQuiet h.quiet
  unloaded := h.unloaded
  precision_eq := h.precision_eq
  nextRelaxation_eq := congrArg (· + relaxer.toList.length) h.nextRelaxation_eq
  minimises_eq := h.minimises_eq
  indices_eq := h.indices_eq
  lookup?_eq := h.lookup?_eq

/-- The last inequalities become soft together. -/
theorem relax_grows {soft before : List (Constraint α)} {reference : ConstraintRef}
    (hquiet : model.IsQuiet) (hunloaded : model.isLoaded = false)
    (hvalues : model.constraints.values = before ++ soft)
    (hreference : reference.slacks = soft.map Constraint.slack) (weight : α)
    {priority : Priority} (hpriority : priority.isRequired = false) :
    ∃ index model', relax reference weight priority model = .ok (some index) model' ∧
      Grows (model.numberedBy (some index)) model' [index] ∧
      model'.constraints.values = before ++ soft.map (Constraint.relaxedBy index) ∧
      model'.lookup? index =
        some ((model.relaxationDeclaration weight priority).toVariable index) := by
  obtain ⟨index, middle, hadd, hgrows, hconstraints, hlookup⟩ :=
    addVariable_grows (numbered_isQuiet hquiet) hunloaded
      (model.relaxationDeclaration weight priority)
  have hnew : index ∉ model.indices := by
    have hnodup := hgrows.quiet.indices_nodup
    rw [hgrows.indices_eq, List.nodup_append] at hnodup
    exact fun hold => hnodup.2.2 index hold index List.mem_cons_self rfl
  have hindex : index ∈ middle.indices := by
    rw [hgrows.indices_eq]
    exact List.mem_append_right _ List.mem_cons_self
  obtain ⟨model', hloop, hgrows', hvalues'⟩ := forM_relaxInequality_grows soft before hgrows.quiet
    hgrows.unloaded hindex (by rw [hconstraints]; exact hvalues) (by
      rintro constraint hsoft term hterm rfl
      have hmem : constraint ∈ model.constraints.values := by
        rw [hvalues]
        exact List.mem_append_right _ hsoft
      have hfits := hquiet.constraint_fits _
        (OrderedMap.mem_of_get? (hquiet.constraint?_of_mem hmem))
      exact hnew (hfits.terms_mem term hterm))
  refine ⟨index, model', ?_, hgrows.trans hgrows', hvalues', ?_⟩
  · rw [relax, hpriority, if_neg Bool.false_ne_true, hreference]
    exact (bind_of_ok hadd).trans (bind_of_ok hloop)
  · rw [hgrows'.lookup?_eq index hindex, hlookup]

end Model

end MixedInteger
