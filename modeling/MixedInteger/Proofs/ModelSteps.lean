import MixedInteger.Proofs.ModelState

/-!
# What the operations on a model do

Each operation on a single inequality or variable is an equation: the model it writes,
and the edit of the tableau that goes with it if the tableau is loaded.  From these
equations and from what the edits of a tableau do, every operation keeps a model
sound, in success and in failure; only a removal that got stuck halfway does not.
-/

namespace MixedInteger.Model

variable {α : Type}

/-! ## Operations on the tableau of a model -/

theorem onTableau_of_ok {β : Type} {action : Tableau.Action α β} {model : Model α} {result : β}
    {tableau : Tableau α} (haction : action model.tableau = .ok result tableau) :
    onTableau action model = .ok result { model with tableau := tableau } := by
  rw [onTableau, haction]

theorem onTableau_of_error {β : Type} {action : Tableau.Action α β} {model : Model α}
    {fault : Fault} {tableau : Tableau α} (haction : action model.tableau = .error fault tableau) :
    onTableau action model = .error fault { model with tableau := tableau } := by
  rw [onTableau, haction]

theorem ends_onTableau {β : Type} {action : Tableau.Action α β} {model : Model α}
    {post : β → Model α → Prop} {failed : Fault → Model α → Prop}
    (h : Ends (action model.tableau)
      (fun result tableau => post result { model with tableau := tableau })
      (fun fault tableau => failed fault { model with tableau := tableau })) :
    Ends (onTableau action model) post failed := by
  cases haction : action model.tableau with
  | ok result tableau =>
    rw [haction] at h
    rw [onTableau_of_ok haction]
    exact h
  | error fault tableau =>
    rw [haction] at h
    rw [onTableau_of_error haction]
    exact h

/-- An edit of the tableau that keeps the variables and a sound tableau. -/
theorem IsQuiet.of_sameFrame {model : Model α} (h : model.IsQuiet) {tableau : Tableau α}
    (hframe : Tableau.SameFrame model.tableau tableau) (hsound : tableau.IsSound) :
    IsQuiet { model with tableau := tableau } := by
  have hfits : Fits model tableau := by
    apply h.toFits.of_character hsound.toHasSoundPool
    · intro index
      rw [Tableau.character?, hframe.lookup?, Tableau.character?]
    · intro _
      exact hsound
  exact hfits.isQuiet (hframe.snapshot.trans h.snapshot_eq)

/-- Replacing a constraint by one that fits. -/
theorem IsQuiet.writeConstraint {model : Model α} (h : model.IsQuiet) {slack : Nat}
    {change : Constraint α → Constraint α}
    (hchange : ∀ constraint, constraint.Fits model.indices slack →
      (change constraint).Fits model.indices slack) :
    IsQuiet { model with constraints := model.constraints.modify slack change } := by
  have hfits := h.toFits.of_constraints (OrderedMap.keys_modify model.constraints slack change) (by
    intro entry hentry
    rcases OrderedMap.mem_modify hentry with hold | ⟨constraint, hmem, rfl⟩
    · exact h.constraint_fits entry hold
    · exact hchange constraint (h.constraint_fits _ hmem))
  exact ⟨hfits, h.snapshot_eq⟩

variable [Scalar α]

/-! ## New variables and constraints -/

/-- What a declaration says about the variable that gets an index. -/
def Declaration.toVariable (declaration : Declaration α) (index : Nat) : Variable α :=
  Variable.declare (declaration.name.getD s!"v{index}") declaration.cost index
    declaration.priority (if declaration.isInteger then .integer else .continuous)
    declaration.isFree

def withVariable (model : Model α) (declaration : Declaration α) : Model α :=
  let index := model.tableau.pool.allocate.1
  let tableau := (model.tableau.register declaration.toVariable).2
  { model with
    tableau := if model.isLoaded then
        tableau.modifyDictionary fun d => Tableau.pushVariable d index declaration.priority
          (Tableau.orientCost model.minimises declaration.cost)
      else tableau
    indices := model.indices ++ [index]
    integers := if declaration.isInteger then model.integers ++ [index] else model.integers }

/-- Adding a variable never fails. -/
theorem addVariable_eq (declaration : Declaration α) (model : Model α) :
    addVariable declaration model =
      .ok model.quiet.tableau.pool.allocate.1 (model.quiet.withVariable declaration) := by
  let index := model.quiet.tableau.pool.allocate.1
  let registered : Model α :=
    { model.quiet with
      tableau := (model.quiet.tableau.register declaration.toVariable).2
      indices := model.indices ++ [index]
      integers := if declaration.isInteger then model.integers ++ [index] else model.integers }
  have hadd : addVariable declaration model =
      (do
        if model.isLoaded then onTableau (Tableau.addVariable index model.minimises)
        pure index : Action α Nat) registered := rfl
  have hlookup : registered.tableau.lookup? index = some (declaration.toVariable index) := by
    rw [Tableau.lookup?_register rfl, if_pos rfl]
  rw [hadd, withVariable]
  by_cases hloaded : model.isLoaded = true
  · have hpush : Tableau.addVariable index model.minimises registered.tableau = .ok () _ :=
      Tableau.addVariable_of_lookup? hlookup model.minimises
    have hloaded' : model.quiet.isLoaded = true := hloaded
    rw [if_pos hloaded', if_pos hloaded]
    exact bind_of_ok (onTableau_of_ok hpush)
  · have hloaded' : ¬ model.quiet.isLoaded = true := hloaded
    rw [if_neg hloaded', if_neg hloaded]
    rfl

def withInequality (model : Model α) (rhs : α) (isUpperBound : Bool) : Model α :=
  let slack := model.tableau.pool.allocate.1
  let tableau := model.tableau.registerSlack.2
  { model with
    tableau := if model.isLoaded then
        tableau.modifyDictionary fun d => d.pushRow slack (Tableau.slackRow d isUpperBound rhs)
      else tableau
    constraints := model.constraints.insert slack (Constraint.bound slack rhs isUpperBound) }

/-- Adding an inequality never fails. -/
theorem addInequality_eq (rhs : α) (isUpperBound : Bool) (model : Model α) :
    addInequality rhs isUpperBound model =
      .ok model.quiet.tableau.pool.allocate.1 (model.quiet.withInequality rhs isUpperBound) := by
  obtain ⟨tableau, indices, integers, constraints, minimises, options, isLoaded, next⟩ := model
  cases isLoaded with
  | false => rfl
  | true => rfl

section Fresh

variable {model : Model α}

omit [Scalar α] in
/-- The index handed out next is neither a variable nor a slack. -/
theorem IsQuiet.allocate_fresh (h : model.IsQuiet) :
    model.tableau.pool.allocate.1 ∉ model.indices ∧
      model.tableau.pool.allocate.1 ∉ model.constraints.keys := by
  have hnone := h.pool.lookup?_allocate
  have hnot := mt (h.known_iff model.tableau.pool.allocate.1).2 (by rw [hnone]; simp)
  exact not_or.1 hnot

omit [Scalar α] in
theorem character?_register {t : Tableau α} {make : Nat → Variable α}
    (hmake : ∀ index, (make index).index = index) (index : Nat) :
    (t.register make).2.character? index =
      if index = t.pool.allocate.1 then
        some ((make t.pool.allocate.1).kind, (make t.pool.allocate.1).isFree)
      else t.character? index := by
  rw [Tableau.character?, Tableau.lookup?_register (hmake _), Tableau.character?]
  split <;> rfl

/-- One more variable, as far as the tableau is not concerned. -/
theorem Fits.register_variable (h : model.IsQuiet) (declaration : Declaration α) :
    Fits { model with
        isLoaded := false
        indices := model.indices ++ [model.tableau.pool.allocate.1]
        integers := if declaration.isInteger then
            model.integers ++ [model.tableau.pool.allocate.1]
          else model.integers }
      (model.tableau.register declaration.toVariable).2 := by
  obtain ⟨hindex, hslack⟩ := h.allocate_fresh
  have hcharacter := character?_register (t := model.tableau)
    (fun index => (rfl : (declaration.toVariable index).index = index))
  have hold {index : Nat} (hne : index ≠ model.tableau.pool.allocate.1) :
      (model.tableau.register declaration.toVariable).2.character? index =
        model.tableau.character? index := by
    rw [hcharacter, if_neg hne]
  refine ⟨h.pool.register fun _ => rfl, ?_, h.slacks_nodup, ?_, ?_, ?_, ?_, ?_,
    fun hloaded => absurd hloaded (by simp)⟩
  · rw [List.nodup_append]
    refine ⟨h.indices_nodup, List.pairwise_singleton _ _, ?_⟩
    intro index hmem new hnew heq
    rw [List.mem_singleton.1 hnew] at heq
    exact hindex (heq ▸ hmem)
  · intro index hmem
    cases List.mem_append.1 hmem with
    | inl hmem => exact h.apart index hmem
    | inr hnew => rw [List.mem_singleton.1 hnew]; exact hslack
  · intro index
    rw [← Tableau.isSome_character?, List.mem_append, List.mem_singleton]
    by_cases hne : index = model.tableau.pool.allocate.1
    · rw [hcharacter, if_pos hne]
      simp [hne]
    · rw [hold hne, Tableau.isSome_character?, h.known_iff]
      simp [hne]
  · have hfilter : (model.indices.filter fun index =>
        (model.tableau.register declaration.toVariable).2.isInteger (some index)) =
          model.integers := by
      rw [h.integers_eq]
      apply List.filter_congr
      intro index hmem
      have hne : index ≠ model.tableau.pool.allocate.1 := fun heq => hindex (heq ▸ hmem)
      rw [Tableau.isInteger_eq, Tableau.isInteger_eq, hold hne]
    have hnew : (model.tableau.register declaration.toVariable).2.isInteger
        (some model.tableau.pool.allocate.1) = declaration.isInteger := by
      rw [Tableau.isInteger_eq, hcharacter, if_pos rfl]
      cases hinteger : declaration.isInteger <;>
        simp [Declaration.toVariable, Variable.declare, hinteger]
    rw [List.filter_append, hfilter, List.filter_cons, List.filter_nil, hnew]
    cases declaration.isInteger <;> simp
  · intro slack hmem
    have hne : slack ≠ model.tableau.pool.allocate.1 := fun heq => hslack (heq ▸ hmem)
    rw [hold hne]
    exact h.slack_character slack hmem
  · intro entry hentry
    exact (h.constraint_fits entry hentry).mono fun index hmem => List.mem_append_left _ hmem

theorem IsQuiet.withVariable (h : model.IsQuiet) (declaration : Declaration α) :
    (model.withVariable declaration).IsQuiet := by
  have hfits := Fits.register_variable h declaration
  have hsound := h.sound
  have hquiet := h.snapshot_eq
  obtain ⟨tableau, indices, integers, constraints, minimises, options, isLoaded, next⟩ := model
  cases isLoaded with
  | false => exact ⟨⟨hfits.pool, hfits.indices_nodup, hfits.slacks_nodup, hfits.apart,
      hfits.known_iff, hfits.integers_eq, hfits.slack_character, hfits.constraint_fits,
      hfits.sound⟩, hquiet⟩
  | true =>
    have hpushed := (hsound rfl).register_pushVariable
      (fun index => (rfl : (declaration.toVariable index).index = index)) declaration.priority
      (Tableau.orientCost minimises declaration.cost)
    exact ⟨⟨hpushed.toHasSoundPool, hfits.indices_nodup, hfits.slacks_nodup, hfits.apart,
      hfits.known_iff, hfits.integers_eq, hfits.slack_character, hfits.constraint_fits,
      fun _ => hpushed⟩, hquiet⟩

/-- One more slack, as far as the tableau is not concerned. -/
theorem Fits.register_slack (h : model.IsQuiet) (rhs : α) (isUpperBound : Bool) :
    Fits { model with
        isLoaded := false
        constraints := model.constraints.insert model.tableau.pool.allocate.1
          (Constraint.bound model.tableau.pool.allocate.1 rhs isUpperBound) }
      model.tableau.registerSlack.2 := by
  obtain ⟨hindex, hslack⟩ := h.allocate_fresh
  have hcharacter := character?_register (t := model.tableau)
    (fun index => (rfl : (Variable.slack index : Variable α).index = index))
  have hold {index : Nat} (hne : index ≠ model.tableau.pool.allocate.1) :
      model.tableau.registerSlack.2.character? index = model.tableau.character? index := by
    rw [Tableau.registerSlack, hcharacter, if_neg hne]
  have hkeys : (model.constraints.insert model.tableau.pool.allocate.1
      (Constraint.bound model.tableau.pool.allocate.1 rhs isUpperBound)).keys =
        model.constraints.keys ++ [model.tableau.pool.allocate.1] := by
    rw [OrderedMap.keys_insert, if_neg hslack]
  refine ⟨h.pool.register fun _ => rfl, h.indices_nodup, ?_, ?_, ?_, ?_, ?_, ?_,
    fun hloaded => absurd hloaded (by simp)⟩
  · rw [hkeys, List.nodup_append]
    refine ⟨h.slacks_nodup, List.pairwise_singleton _ _, ?_⟩
    intro slack hmem new hnew heq
    rw [List.mem_singleton.1 hnew] at heq
    exact hslack (heq ▸ hmem)
  · intro index hmem
    rw [hkeys, List.mem_append, List.mem_singleton, not_or]
    exact ⟨h.apart index hmem, fun heq => hindex (heq ▸ hmem)⟩
  · intro index
    rw [← Tableau.isSome_character?, hkeys, List.mem_append, List.mem_singleton]
    by_cases hne : index = model.tableau.pool.allocate.1
    · rw [Tableau.registerSlack, hcharacter, if_pos hne]
      simp [hne]
    · rw [hold hne, Tableau.isSome_character?, h.known_iff]
      simp [hne]
  · refine h.integers_eq.trans ?_
    apply List.filter_congr
    intro index hmem
    have hne : index ≠ model.tableau.pool.allocate.1 := fun heq => hindex (heq ▸ hmem)
    rw [Tableau.isInteger_eq, Tableau.isInteger_eq, hold hne]
  · intro slack hmem
    rw [hkeys, List.mem_append, List.mem_singleton] at hmem
    by_cases hne : slack = model.tableau.pool.allocate.1
    · rw [Tableau.registerSlack, hcharacter, if_pos hne]
      rfl
    · rw [hold hne]
      exact h.slack_character slack (hmem.resolve_right hne)
  · intro entry hentry
    change entry ∈ OrderedMap.insert _ _ _ at hentry
    rw [OrderedMap.insert_of_not_mem hslack] at hentry
    cases List.mem_append.1 hentry with
    | inl hmem => exact h.constraint_fits entry hmem
    | inr hnew =>
      rw [List.mem_singleton.1 hnew]
      exact Constraint.Fits.bound ..

theorem IsQuiet.withInequality (h : model.IsQuiet) (rhs : α) (isUpperBound : Bool) :
    (model.withInequality rhs isUpperBound).IsQuiet := by
  have hfits := Fits.register_slack h rhs isUpperBound
  have hsound := h.sound
  have hquiet := h.snapshot_eq
  obtain ⟨tableau, indices, integers, constraints, minimises, options, isLoaded, next⟩ := model
  cases isLoaded with
  | false => exact ⟨⟨hfits.pool, hfits.indices_nodup, hfits.slacks_nodup, hfits.apart,
      hfits.known_iff, hfits.integers_eq, hfits.slack_character, hfits.constraint_fits,
      hfits.sound⟩, hquiet⟩
  | true =>
    have hpushed := (hsound rfl).register_pushRow
      (fun index => (rfl : (Variable.slack index : Variable α).index = index))
      (by simp [Tableau.slackRow] :
        (Tableau.slackRow tableau.dictionary isUpperBound rhs).size = tableau.dictionary.width)
    exact ⟨⟨hpushed.toHasSoundPool, hfits.indices_nodup, hfits.slacks_nodup, hfits.apart,
      hfits.known_iff, hfits.integers_eq, hfits.slack_character, hfits.constraint_fits,
      fun _ => hpushed⟩, hquiet⟩

end Fresh

/-! ## Changes of one inequality -/

def withConstraint {β : Type} (model : Model β) (slack : Nat) (constraint : Constraint β) :
    Model β :=
  { model with constraints := model.constraints.modify slack fun _ => constraint }

section Inequalities

variable {model : Model α} {slack index : Nat} {constraint : Constraint α}

omit [Scalar α] in
theorem inequality_of_some (hsome : model.constraint? slack = some constraint) :
    inequality slack model = .ok constraint model := by
  simp only [inequality, bind, EStateM.bind, run_get, hsome]
  rfl

omit [Scalar α] in
theorem inequality_of_none (hnone : model.constraint? slack = none) :
    inequality slack model = .error (Cause.constraintNotInModel slack : Fault) model := by
  simp only [inequality, bind, EStateM.bind, run_get, hnone]
  rfl

theorem setInequalityCoefficient_of_none (hnone : model.constraint? slack = none)
    (coefficient : α) (index : Nat) :
    setInequalityCoefficient slack coefficient index model =
      .error (Cause.constraintNotInModel slack : Fault) model.quiet := by
  have hinequality : inequality slack model.quiet = .error _ _ := inequality_of_none hnone
  exact (bind_of_ok (discardSearch_eq model)).trans (bind_of_error hinequality)

theorem setInequalityCoefficient_of_some (hsome : model.constraint? slack = some constraint)
    (coefficient : α) (index : Nat) :
    setInequalityCoefficient slack coefficient index model =
      if (model.isLoaded && differenceTo constraint index coefficient != 0) = true then
        onTableau (Tableau.changeCoefficient slack constraint.isUpperBound index
          (differenceTo constraint index coefficient))
          (model.quiet.withConstraint slack (constraint.setCoefficient index coefficient))
      else
        .ok () (model.quiet.withConstraint slack
          (constraint.setCoefficient index coefficient)) := by
  have hinequality : inequality slack model.quiet = .ok constraint model.quiet :=
    inequality_of_some hsome
  have hset : setInequalityCoefficient slack coefficient index model =
      (if (model.isLoaded && differenceTo constraint index coefficient != 0) = true then
        onTableau (Tableau.changeCoefficient slack constraint.isUpperBound index
          (differenceTo constraint index coefficient))
      else pure () : Action α Unit)
        (model.quiet.withConstraint slack (constraint.setCoefficient index coefficient)) :=
    (bind_of_ok (discardSearch_eq model)).trans (bind_of_ok hinequality)
  rw [hset]
  split <;> rfl

theorem setInequalityRhs_of_none (hnone : model.constraint? slack = none) (rhs : α) :
    setInequalityRhs slack rhs model =
      .error (Cause.constraintNotInModel slack : Fault) model.quiet := by
  have hinequality : inequality slack model.quiet = .error _ _ := inequality_of_none hnone
  exact (bind_of_ok (discardSearch_eq model)).trans (bind_of_error hinequality)

theorem setInequalityRhs_of_some (hsome : model.constraint? slack = some constraint) (rhs : α) :
    setInequalityRhs slack rhs model =
      if (model.isLoaded && rhs - constraint.rhs != 0) = true then
        onTableau (Tableau.changeRhs slack constraint.isUpperBound (rhs - constraint.rhs))
          (model.quiet.withConstraint slack { constraint with rhs := rhs })
      else .ok () (model.quiet.withConstraint slack { constraint with rhs := rhs }) := by
  have hinequality : inequality slack model.quiet = .ok constraint model.quiet :=
    inequality_of_some hsome
  have hset : setInequalityRhs slack rhs model =
      (if (model.isLoaded && rhs - constraint.rhs != 0) = true then
        onTableau (Tableau.changeRhs slack constraint.isUpperBound (rhs - constraint.rhs))
      else pure () : Action α Unit)
        (model.quiet.withConstraint slack { constraint with rhs := rhs }) :=
    (bind_of_ok (discardSearch_eq model)).trans (bind_of_ok hinequality)
  rw [hset]
  split <;> rfl

omit [Scalar α] in
theorem IsQuiet.withConstraint (h : model.IsQuiet)
    (hfits : constraint.Fits model.indices slack) :
    (model.withConstraint slack constraint).IsQuiet :=
  h.writeConstraint fun _ _ => hfits

/-- Giving a variable a coefficient in one inequality keeps a model sound. -/
theorem setInequalityCoefficient_sound (h : model.IsSound) (hindex : index ∈ model.indices)
    (slack : Nat) (coefficient : α) :
    Ends (setInequalityCoefficient slack coefficient index model)
      (fun _ model' => model'.IsQuiet ∧ model'.indices = model.indices)
      (fun _ model' => model'.IsSound) := by
  have hquiet := h.isQuiet
  cases hconstraint : model.constraint? slack with
  | none =>
    rw [setInequalityCoefficient_of_none hconstraint]
    exact hquiet.isSound
  | some constraint =>
    have hfits := hquiet.constraint_fits _ (OrderedMap.mem_of_get? hconstraint)
    have hwritten := hquiet.withConstraint (hfits.setCoefficient hindex coefficient)
    have hslack : slack ∈ model.constraints.keys := OrderedMap.mem_keys_of_get? hconstraint
    rw [setInequalityCoefficient_of_some hconstraint]
    split
    · rename_i hchange
      have hloaded : model.quiet.isLoaded = true := (Bool.and_eq_true_iff.1 hchange).1
      have hne : slack ≠ index := by
        rintro rfl
        exact hquiet.apart slack hindex hslack
      have hedit := Tableau.changeCoefficient_sound (hquiet.sound hloaded) hquiet.snapshot_eq
        (hquiet.mentions hloaded (.inr hslack)) (hquiet.mentions hloaded (.inl hindex)) hne
        constraint.isUpperBound (differenceTo constraint index coefficient)
      apply ends_onTableau
      apply hedit.mono
      · rintro _ tableau ⟨hsound, hframe⟩
        exact ⟨hwritten.of_sameFrame hframe hsound, rfl⟩
      · rintro _ tableau rfl
        exact hwritten.isSound
    · exact ⟨hwritten, rfl⟩

/-- Changing the right-hand side of one inequality keeps a model sound. -/
theorem setInequalityRhs_sound (h : model.IsSound) (slack : Nat) (rhs : α) :
    Ends (setInequalityRhs slack rhs model) (fun _ => IsQuiet) (fun _ => IsSound) := by
  have hquiet := h.isQuiet
  cases hconstraint : model.constraint? slack with
  | none =>
    rw [setInequalityRhs_of_none hconstraint]
    exact hquiet.isSound
  | some constraint =>
    have hfits := hquiet.constraint_fits _ (OrderedMap.mem_of_get? hconstraint)
    have hwritten : (model.quiet.withConstraint slack { constraint with rhs := rhs }).IsQuiet :=
      hquiet.withConstraint ⟨hfits.slack_eq, hfits.terms_mem, hfits.terms_nodup,
        hfits.relaxation_mem⟩
    have hslack : slack ∈ model.constraints.keys := OrderedMap.mem_keys_of_get? hconstraint
    rw [setInequalityRhs_of_some hconstraint]
    split
    · rename_i hchange
      have hloaded : model.quiet.isLoaded = true := (Bool.and_eq_true_iff.1 hchange).1
      obtain ⟨tableau, hedit, hsound, hframe⟩ := Tableau.changeRhs_sound (hquiet.sound hloaded)
        hquiet.snapshot_eq (hquiet.mentions hloaded (.inr hslack)) constraint.isUpperBound
        (rhs - constraint.rhs)
      have hedit' : Tableau.changeRhs slack constraint.isUpperBound (rhs - constraint.rhs)
          (model.quiet.withConstraint slack { constraint with rhs := rhs }).tableau =
            .ok () tableau := hedit
      rw [onTableau_of_ok hedit']
      exact hwritten.of_sameFrame hframe hsound
    · exact hwritten

end Inequalities

/-! ## Changes of all inequalities behind a reference -/

section References

variable {model : Model α} {index : Nat}

omit [Scalar α] in
theorem requireVariable_of_mem (hindex : index ∈ model.indices) :
    requireVariable index model = .ok () model := by
  have hcontains : model.indices.contains index = true := List.contains_iff_mem.2 hindex
  simp only [requireVariable, bind, EStateM.bind, run_get,
    hcontains]
  rfl

omit [Scalar α] in
theorem requireVariable_of_not_mem (hindex : index ∉ model.indices) :
    requireVariable index model = .error (Cause.variableNotInModel index : Fault) model := by
  have hcontains : model.indices.contains index = false := by
    simpa using hindex
  simp only [requireVariable, bind, EStateM.bind, run_get,
    hcontains]
  rfl

omit [Scalar α] in
/-- An operation that needs a declared variable first. -/
theorem ends_requireVariable {action : Action α Unit} {post failed : Model α → Prop}
    (hmodel : failed model)
    (haction : index ∈ model.indices → Ends (action model) (fun _ => post) (fun _ => failed)) :
    Ends ((do requireVariable index; action : Action α Unit) model) (fun _ => post)
      (fun _ => failed) := by
  by_cases hindex : index ∈ model.indices
  · have hstep : (do requireVariable index; action : Action α Unit) model = action model :=
      bind_of_ok (requireVariable_of_mem hindex)
    rw [hstep]
    exact haction hindex
  · have hstep : (do requireVariable index; action : Action α Unit) model = .error _ model :=
      bind_of_error (requireVariable_of_not_mem hindex)
    rw [hstep]
    exact hmodel

omit [Scalar α] in
/-- Changing the coefficient of a declared variable in one inequality after the other. -/
theorem forM_coefficient_sound (h : model.IsSound) (hindex : index ∈ model.indices)
    (slacks : List Nat) {body : Nat → Action α Unit}
    (hbody : ∀ slack model, model.IsSound → index ∈ model.indices →
      Ends (body slack model) (fun _ model' => model'.IsSound ∧ model'.indices = model.indices)
        (fun _ => IsSound)) :
    Ends (slacks.forM body model) (fun _ => IsSound) (fun _ => IsSound) := by
  have hall := Ends.forM body (fun model => model.IsSound ∧ index ∈ model.indices)
    (fun _ => IsSound) slacks (by
      rintro slack - model ⟨hmodel, hmem⟩
      apply (hbody slack model hmodel hmem).mono
      · rintro _ model' ⟨hsound, hindices⟩
        exact ⟨hsound, by rw [hindices]; exact hmem⟩
      · intro _ model' hsound
        exact hsound) model ⟨h, hindex⟩
  exact hall.mono (fun _ _ hpost => hpost.1) (fun _ _ hfailed => hfailed)

theorem setCoefficient_sound (h : model.IsSound) (reference : ConstraintRef) (coefficient : α)
    (index : Nat) :
    Ends (setCoefficient reference coefficient index model) (fun _ => IsSound)
      (fun _ => IsSound) := by
  apply ends_requireVariable h
  intro hindex
  apply forM_coefficient_sound h hindex
  intro slack model hmodel hmem
  exact (setInequalityCoefficient_sound hmodel hmem slack coefficient).mono
    (fun _ _ hpost => ⟨hpost.1.isSound, hpost.2⟩) (fun _ _ hfailed => hfailed)

theorem addTerm_sound (h : model.IsSound) (reference : ConstraintRef) (coefficient : α)
    (index : Nat) :
    Ends (addTerm reference coefficient index model) (fun _ => IsSound) (fun _ => IsSound) := by
  apply ends_requireVariable h
  intro hindex
  apply forM_coefficient_sound h hindex
  intro slack model hmodel hmem
  cases hconstraint : model.constraint? slack with
  | none =>
    rw [bind_of_error (inequality_of_none hconstraint)]
    exact hmodel
  | some constraint =>
    rw [bind_of_ok (inequality_of_some hconstraint)]
    exact (setInequalityCoefficient_sound hmodel hmem slack _).mono
      (fun _ _ hpost => ⟨hpost.1.isSound, hpost.2⟩) (fun _ _ hfailed => hfailed)

theorem setRhs_sound (h : model.IsSound) (reference : ConstraintRef) (rhs : α) :
    Ends (setRhs reference rhs model) (fun _ => IsSound) (fun _ => IsSound) := by
  apply Ends.forM _ IsSound _ _ _ model h
  intro slack _ model hmodel
  exact (setInequalityRhs_sound hmodel slack rhs).mono (fun _ _ hpost => hpost.isSound)
    (fun _ _ hfailed => hfailed)

theorem relaxInequality_sound (h : model.IsSound) {relaxation : Nat}
    (hrelaxation : relaxation ∈ model.indices) (slack : Nat) :
    Ends (relaxInequality relaxation slack model)
      (fun _ model' => model'.IsSound ∧ model'.indices = model.indices) (fun _ => IsSound) := by
  unfold relaxInequality
  cases hconstraint : model.constraint? slack with
  | none =>
    rw [bind_of_error (inequality_of_none hconstraint)]
    exact h
  | some constraint =>
    rw [bind_of_ok (inequality_of_some hconstraint)]
    apply Ends.bind (setInequalityCoefficient_sound h hrelaxation slack
      (if constraint.isUpperBound then -1 else 1))
    rintro _ model' ⟨hquiet, hindices⟩
    refine ⟨IsQuiet.isSound (hquiet.writeConstraint ?_), hindices⟩
    intro constraint' hfits
    refine ⟨hfits.slack_eq, hfits.terms_mem, hfits.terms_nodup, ?_⟩
    intro index hindex
    rw [Option.mem_def, Option.some.injEq] at hindex
    rw [← hindex, hindices]
    exact hrelaxation

theorem addVariable_sound (h : model.IsSound) (declaration : Declaration α) :
    Ends (addVariable declaration model) (fun _ => IsSound) (fun _ => IsSound) := by
  rw [addVariable_eq]
  exact (h.isQuiet.withVariable declaration).isSound

theorem addInequality_sound (h : model.IsSound) (rhs : α) (isUpperBound : Bool) :
    Ends (addInequality rhs isUpperBound model) (fun _ => IsSound) (fun _ => IsSound) := by
  rw [addInequality_eq]
  exact (h.isQuiet.withInequality rhs isUpperBound).isSound

theorem equal_sound (h : model.IsSound) (rhs : α) :
    Ends (equal rhs model) (fun _ => IsSound) (fun _ => IsSound) := by
  apply Ends.bind (addInequality_sound h rhs true)
  intro upper model' hmodel'
  apply Ends.bind (addInequality_sound hmodel' rhs false)
  intro lower model'' hmodel''
  exact hmodel''

theorem relax_eq {priority : Priority} (hpriority : priority.isRequired = false)
    (reference : ConstraintRef) (weight : α) (model : Model α) :
    relax reference weight priority model =
      (do
        reference.slacks.forM (relaxInequality model.quiet.tableau.pool.allocate.1)
        pure (some model.quiet.tableau.pool.allocate.1) : Action α (Option Nat))
        (model.numbered.quiet.withVariable (model.relaxationDeclaration weight priority)) := by
  have hrelax : relax reference weight priority model =
      (do
        let relaxation ← addVariable (model.relaxationDeclaration weight priority)
        reference.slacks.forM (relaxInequality relaxation)
        pure (some relaxation) : Action α (Option Nat)) model.numbered := by
    unfold relax
    rw [hpriority]
    rfl
  rw [hrelax]
  exact bind_of_ok (addVariable_eq _ _)

theorem relax_sound (h : model.IsSound) (reference : ConstraintRef) (weight : α)
    (priority : Priority) :
    Ends (relax reference weight priority model) (fun _ => IsSound) (fun _ => IsSound) := by
  cases hpriority : priority.isRequired with
  | true =>
    have hrelax : relax reference weight priority model = .ok none model := by
      unfold relax
      rw [hpriority]
      rfl
    rw [hrelax]
    exact h
  | false =>
    rw [relax_eq hpriority]
    have hnumbered : model.numbered.quiet.IsQuiet :=
      let hquiet := h.isQuiet
      ⟨⟨hquiet.pool, hquiet.indices_nodup, hquiet.slacks_nodup, hquiet.apart, hquiet.known_iff,
        hquiet.integers_eq, hquiet.slack_character, hquiet.constraint_fits, hquiet.sound⟩, rfl⟩
    have hdeclared := hnumbered.withVariable (model.relaxationDeclaration weight priority)
    apply Ends.bind (forM_coefficient_sound hdeclared.isSound
      (List.mem_append_right _ (List.mem_singleton.2 rfl)) reference.slacks
      fun slack model hmodel hmem => relaxInequality_sound hmodel hmem slack)
    intro _ model' hmodel'
    exact hmodel'

end References

/-! ## Costs and directions -/

def withCost {β : Type} (model : Model β) (index : Nat) (cost : β) : Model β :=
  { model with
    tableau := model.tableau.modifyVariable index fun data => { data with cost := cost } }

section Costs

variable {model : Model α} {index : Nat}

omit [Scalar α] in
/-- A change of what is known about variables that keeps their kinds. -/
theorem IsQuiet.of_sameView (h : model.IsQuiet) {tableau : Tableau α}
    (hview : Tableau.SameView Variable.character model.tableau tableau) :
    IsQuiet { model with tableau := tableau } := by
  have hfits : Fits model tableau :=
    h.toFits.of_character (hview.hasSoundPool h.pool) hview.view_eq
      fun hloaded => hview.isSound (h.sound hloaded)
  exact hfits.isQuiet (hview.snapshot.trans h.snapshot_eq)

omit [Scalar α] in
theorem sameView_withCost (model : Model α) (index : Nat) (cost : α) :
    Tableau.SameView Variable.character model.tableau (model.withCost index cost).tableau := by
  apply Tableau.SameView.modifyVariable
  intro data
  rfl

omit [Scalar α] in
theorem IsQuiet.withCost (h : model.IsQuiet) (index : Nat) (cost : α) :
    (model.withCost index cost).IsQuiet :=
  h.of_sameView (sameView_withCost model index cost)

theorem setCost_of_mem (hindex : index ∈ model.indices) {data : Variable α}
    (hdata : model.quiet.tableau.lookup? index = some data) (cost : α) :
    setCost cost index model =
      if (model.isLoaded && cost - data.cost != 0) = true then
        onTableau (Tableau.changeCost index data.priority model.minimises (cost - data.cost))
          (model.quiet.withCost index cost)
      else .ok () (model.quiet.withCost index cost) := by
  unfold setCost
  rw [bind_of_ok (requireVariable_of_mem hindex), bind_of_ok (discardSearch_eq model),
    bind_of_ok (run_get model.quiet)]
  simp only [hdata]
  change (if (model.isLoaded && cost - data.cost != 0) = true then
    onTableau (Tableau.changeCost index data.priority model.minimises (cost - data.cost))
    else pure () : Action α Unit) (model.quiet.withCost index cost) = _
  split <;> rfl

theorem setCost_sound (h : model.IsSound) (cost : α) (index : Nat) :
    Ends (setCost cost index model) (fun _ => IsSound) (fun _ => IsSound) := by
  have hquiet := h.isQuiet
  by_cases hindex : index ∈ model.indices
  · obtain ⟨data, hdata⟩ := Option.isSome_iff_exists.1
      ((hquiet.known_iff index).2 (.inl hindex))
    have hpriced := hquiet.withCost index cost
    rw [setCost_of_mem hindex hdata]
    split
    · rename_i hchange
      have hloaded : (model.quiet.withCost index cost).isLoaded = true :=
        (Bool.and_eq_true_iff.1 hchange).1
      obtain ⟨tableau, hedit, hsound, hframe⟩ := Tableau.changeCost_sound
        (hpriced.sound hloaded) hpriced.snapshot_eq (hpriced.mentions hloaded (.inl hindex))
        data.priority model.minimises (cost - data.cost)
      rw [onTableau_of_ok hedit]
      exact (hpriced.of_sameFrame hframe hsound).isSound
    · exact hpriced.isSound
  · have herror : setCost cost index model = .error _ model :=
      bind_of_error (requireVariable_of_not_mem hindex)
    rw [herror]
    exact h

theorem sameView_negateRelaxationCosts (model : Model α) :
    Tableau.SameView Variable.character model.tableau model.negateRelaxationCosts.tableau := by
  unfold negateRelaxationCosts
  simp only
  generalize model.tableau = t
  induction model.relaxations generalizing t with
  | nil => exact Tableau.SameView.refl t
  | cons index rest ih =>
    rw [List.foldl_cons]
    apply Tableau.SameView.trans _ (ih _)
    apply Tableau.SameView.modifyVariable
    intro data
    rfl

theorem setDirection_sound (h : model.IsSound) (minimises : Bool) :
    (model.setDirection minimises).IsSound := by
  unfold setDirection
  split
  · exact h
  · have hquiet := h.isQuiet
    have hunloaded : IsQuiet { model.quiet with minimises := minimises, isLoaded := false } :=
      ⟨⟨hquiet.pool, hquiet.indices_nodup, hquiet.slacks_nodup, hquiet.apart, hquiet.known_iff,
        hquiet.integers_eq, hquiet.slack_character, hquiet.constraint_fits,
        fun hloaded => absurd hloaded (by simp)⟩, rfl⟩
    exact (hunloaded.of_sameView (sameView_negateRelaxationCosts _)).isSound

end Costs

/-! ## Removals -/

def withoutVariable {β : Type} (model : Model β) (index : Nat) : Model β :=
  { model with
    indices := model.indices.erase index
    integers := model.integers.filter fun integer => integer != index
    constraints := model.constraints.map fun entry => (entry.1, entry.2.forget index) }

def withoutConstraint {β : Type} (model : Model β) (slack : Nat) : Model β :=
  { model with constraints := model.constraints.erase slack }

/-- A removal that did not get stuck left a sound model behind. -/
def SoundUnlessStuck (fault : Fault) (model : Model α) : Prop :=
  fault.cause.isStuck = false → model.IsSound

section Removals

variable {model : Model α} {index slack : Nat}

omit [Scalar α] in
theorem keys_withoutVariable (model : Model α) (index : Nat) :
    (model.withoutVariable index).constraints.keys = model.constraints.keys := by
  simp only [withoutVariable, OrderedMap.keys, List.map_map]
  rfl

omit [Scalar α] in
theorem Fits.mem_withoutVariable {t : Tableau α} (h : Fits model t) (index other : Nat) :
    other ∈ (model.withoutVariable index).indices ↔ other ∈ model.indices ∧ other ≠ index := by
  simp only [withoutVariable, h.indices_nodup.erase_eq_filter, List.mem_filter, bne_iff_ne]

omit [Scalar α] in
theorem character?_release (t : Tableau α) (index other : Nat) :
    (t.release index).character? other =
      if other = index then none else t.character? other := by
  rw [Tableau.character?, Tableau.lookup?_release, Tableau.character?]
  split <;> rfl

omit [Scalar α] in
theorem character?_modify_release {t middle : Tableau α} (hframe : Tableau.SameFrame t middle)
    (change : Dictionary α → Dictionary α) (index other : Nat) :
    ((middle.modifyDictionary change).release index).character? other =
      if other = index then none else t.character? other := by
  have hsame : (middle.modifyDictionary change).character? other = t.character? other := by
    change (middle.lookup? other).map _ = _
    rw [hframe.lookup?, Tableau.character?]
  rw [character?_release, hsame]

omit [Scalar α] in
/-- A model without a variable fits a tableau that has released it. -/
theorem Fits.withoutVariable {t t' : Tableau α} (h : Fits model t) (hindex : index ∈ model.indices)
    (hpool : t'.HasSoundPool)
    (hcharacter : ∀ other, t'.character? other =
      if other = index then none else t.character? other)
    (hsound : model.isLoaded = true → t'.IsSound) :
    Fits (model.withoutVariable index) t' := by
  have hold {other : Nat} (hne : other ≠ index) : t'.character? other = t.character? other := by
    rw [hcharacter, if_neg hne]
  refine ⟨hpool, h.indices_nodup.erase index, ?_, ?_, ?_, ?_, ?_, ?_, hsound⟩
  · rw [keys_withoutVariable]
    exact h.slacks_nodup
  · intro other hother
    rw [keys_withoutVariable]
    exact h.apart other ((h.mem_withoutVariable index other).1 hother).1
  · intro other
    rw [h.mem_withoutVariable, keys_withoutVariable, ← Tableau.isSome_character?, hcharacter]
    by_cases hne : other = index
    · have hslack : other ∉ model.constraints.keys := h.apart other (by rw [hne]; exact hindex)
      simp [hne, hne ▸ hslack]
    · rw [if_neg hne, Tableau.isSome_character?, h.known_iff]
      simp [hne]
  · change model.integers.filter _ = (model.indices.erase index).filter _
    rw [h.integers_eq, h.indices_nodup.erase_eq_filter, List.filter_filter, List.filter_filter]
    apply List.filter_congr
    intro other _
    by_cases hne : other = index
    · simp [hne]
    · rw [Tableau.isInteger_eq, Tableau.isInteger_eq, hold hne, Bool.and_comm]
  · intro slack hslack
    rw [keys_withoutVariable] at hslack
    have hne : slack ≠ index := by
      rintro rfl
      exact h.apart slack hindex hslack
    rw [hold hne]
    exact h.slack_character slack hslack
  · intro entry hentry
    obtain ⟨before, hbefore, rfl⟩ := List.mem_map.1 hentry
    apply ((h.constraint_fits before hbefore).forget index).mono
    intro other hother
    obtain ⟨hmem, hne⟩ := List.mem_filter.1 hother
    exact (h.mem_withoutVariable index other).2 ⟨hmem, by simpa using hne⟩

omit [Scalar α] in
/-- A model without a constraint fits a tableau that has released its slack. -/
theorem Fits.withoutConstraint {t t' : Tableau α} (h : Fits model t)
    (hslack : slack ∈ model.constraints.keys) (hpool : t'.HasSoundPool)
    (hcharacter : ∀ other, t'.character? other =
      if other = slack then none else t.character? other)
    (hsound : model.isLoaded = true → t'.IsSound) :
    Fits (model.withoutConstraint slack) t' := by
  have hold {other : Nat} (hne : other ≠ slack) : t'.character? other = t.character? other := by
    rw [hcharacter, if_neg hne]
  have hkeys (other : Nat) : other ∈ (model.withoutConstraint slack).constraints.keys ↔
      other ∈ model.constraints.keys ∧ other ≠ slack := by
    rw [Model.withoutConstraint, OrderedMap.keys_erase, List.mem_filter, bne_iff_ne]
  refine ⟨hpool, h.indices_nodup, ?_, ?_, ?_, ?_, ?_, ?_, hsound⟩
  · rw [Model.withoutConstraint, OrderedMap.keys_erase]
    exact h.slacks_nodup.filter _
  · intro index hmem hother
    exact h.apart index hmem ((hkeys index).1 hother).1
  · intro other
    rw [hkeys, ← Tableau.isSome_character?, hcharacter]
    by_cases hne : other = slack
    · have hindex : other ∉ model.indices := fun hmem => h.apart other hmem (hne ▸ hslack)
      rw [if_pos hne]
      simp only [Option.isSome_none, Bool.false_eq_true, hne, ne_eq, not_true, and_false, or_false,
        false_iff]
      exact hne ▸ hindex
    · rw [if_neg hne, Tableau.isSome_character?, h.known_iff]
      simp [hne, Model.withoutConstraint]
  · refine h.integers_eq.trans ?_
    apply List.filter_congr
    intro index hmem
    have hne : index ≠ slack := fun heq => h.apart index hmem (heq ▸ hslack)
    rw [Tableau.isInteger_eq, Tableau.isInteger_eq, hold hne]
  · intro other hother
    obtain ⟨hmem, hne⟩ := (hkeys other).1 hother
    rw [hold hne]
    exact h.slack_character other hmem
  · intro entry hentry
    exact h.constraint_fits entry (OrderedMap.mem_erase_iff.1 hentry).1

theorem removeVariable_of_mem (hindex : index ∈ model.indices) :
    removeVariable index model =
      if model.isLoaded = true then
        onTableau (Tableau.removeVariable index) (model.quiet.withoutVariable index)
      else
        .ok () { model.quiet.withoutVariable index with
          tableau := model.quiet.tableau.release index } := by
  have hquiet : requireVariable index model.quiet = .ok () model.quiet :=
    requireVariable_of_mem hindex
  have hremove : removeVariable index model =
      (if model.isLoaded = true then onTableau (Tableau.removeVariable index)
      else modifyTableau fun t => t.release index : Action α Unit)
        (model.quiet.withoutVariable index) :=
    (bind_of_ok (discardSearch_eq model)).trans (bind_of_ok hquiet)
  rw [hremove]
  split <;> rfl

/-- Removing a variable keeps a model sound unless it got stuck. -/
theorem removeVariable_sound (h : model.IsSound) (index : Nat) :
    Ends (removeVariable index model) (fun _ => IsSound) SoundUnlessStuck := by
  have hquiet := h.isQuiet
  by_cases hindex : index ∈ model.indices
  · have hknown := (hquiet.known_iff index).2 (.inl hindex)
    rw [removeVariable_of_mem hindex]
    split
    · rename_i hloaded
      have hsound : model.quiet.tableau.IsSound := hquiet.sound hloaded
      apply ends_onTableau
      rcases Tableau.removeVariable_cases (fun _ _ _ => True) hsound hquiet.snapshot_eq
        (hquiet.mentions hloaded (.inl hindex)) (fun _ _ => trivial) with
        herror | ⟨c, middle, hrun, hcolumn, hok⟩
      · have herror' : Tableau.removeVariable index
            (model.quiet.withoutVariable index).tableau = .error _ _ := herror
        rw [herror']
        exact fun hstuck => absurd hstuck (by simp [Cause.isStuck])
      · have hok' : Tableau.removeVariable index
            (model.quiet.withoutVariable index).tableau = .ok () _ := hok
        rw [hok']
        have hmiddle := hsound.of_sameFrame hrun.1 hrun.2
        have hdropped := hmiddle.release_dropColumn hcolumn
        have hfits : Fits (model.quiet.withoutVariable index) _ :=
          hquiet.toFits.withoutVariable hindex hdropped.toHasSoundPool
            (character?_modify_release hrun.1 _ index) (fun _ => hdropped)
        exact (hfits.isQuiet (hrun.1.snapshot.trans hquiet.snapshot_eq)).isSound
    · rename_i hloaded
      have hfits : Fits (model.quiet.withoutVariable index) (model.quiet.tableau.release index) :=
        hquiet.toFits.withoutVariable hindex (hquiet.pool.release hknown)
          (character?_release _ index) (fun hloaded' => absurd hloaded' hloaded)
      exact (hfits.isQuiet hquiet.snapshot_eq).isSound
  · have herror : removeVariable index model = .error _ model.quiet :=
      (bind_of_ok (discardSearch_eq model)).trans
        (bind_of_error (requireVariable_of_not_mem hindex))
    rw [herror]
    exact fun _ => hquiet.isSound

def dropSlack (isLoaded : Bool) (slack : Nat) : Action α Unit :=
  if isLoaded = true then onTableau (Tableau.removeConstraint slack)
  else modifyTableau fun t => t.release slack

def dropRelaxation (constraint : Constraint α) : Action α Unit := do
  match constraint.relaxation with
  | some relaxation =>
    if (← get).indices.contains relaxation then removeVariable relaxation
  | none => pure ()

theorem removeInequality_of_none (hnone : model.constraint? slack = none) :
    removeInequality slack model =
      .error (Cause.constraintNotInModel slack : Fault) model.quiet := by
  have hinequality : inequality slack model.quiet = .error _ _ := inequality_of_none hnone
  exact (bind_of_ok (discardSearch_eq model)).trans (bind_of_error hinequality)

theorem removeInequality_of_some {constraint : Constraint α}
    (hsome : model.constraint? slack = some constraint) :
    removeInequality slack model =
      (do
        dropSlack model.isLoaded slack
        dropRelaxation constraint : Action α Unit) (model.quiet.withoutConstraint slack) := by
  have hinequality : inequality slack model.quiet = .ok constraint model.quiet :=
    inequality_of_some hsome
  have hremove : removeInequality slack model =
      (do
        if model.isLoaded then onTableau (Tableau.removeConstraint slack)
        else modifyTableau fun t => t.release slack
        dropRelaxation constraint : Action α Unit) (model.quiet.withoutConstraint slack) :=
    (bind_of_ok (discardSearch_eq model)).trans (bind_of_ok hinequality)
  rw [hremove, dropSlack]
  split <;> rfl

theorem dropSlack_sound (h : model.IsQuiet) (hslack : slack ∈ model.constraints.keys) :
    Ends (dropSlack model.isLoaded slack (model.withoutConstraint slack)) (fun _ => IsQuiet)
      SoundUnlessStuck := by
  unfold dropSlack
  split
  · rename_i hloaded
    have hsound := h.sound hloaded
    apply ends_onTableau
    rcases Tableau.removeConstraint_cases (fun _ _ _ => True) hsound h.snapshot_eq
      (h.mentions hloaded (.inr hslack)) (fun _ _ => trivial) with
      herror | ⟨r, middle, hrun, hrow, hok⟩
    · have herror' : Tableau.removeConstraint slack
          (model.withoutConstraint slack).tableau = .error _ _ := herror
      rw [herror']
      exact fun hstuck => absurd hstuck (by simp [Cause.isStuck])
    · have hok' : Tableau.removeConstraint slack
          (model.withoutConstraint slack).tableau = .ok () _ := hok
      rw [hok']
      have hmiddle := hsound.of_sameFrame hrun.1 hrun.2
      have hdropped := hmiddle.release_dropRow hrow
      have hfits : Fits (model.withoutConstraint slack) _ :=
        h.toFits.withoutConstraint hslack hdropped.toHasSoundPool
          (character?_modify_release hrun.1 _ slack) (fun _ => hdropped)
      exact hfits.isQuiet (hrun.1.snapshot.trans h.snapshot_eq)
  · rename_i hloaded
    have hknown := (h.known_iff slack).2 (.inr hslack)
    have hfits : Fits (model.withoutConstraint slack) (model.tableau.release slack) :=
      h.toFits.withoutConstraint hslack (h.pool.release hknown) (character?_release _ slack)
        (fun hloaded' => absurd hloaded' hloaded)
    exact hfits.isQuiet h.snapshot_eq

theorem dropRelaxation_sound (h : model.IsSound) (constraint : Constraint α) :
    Ends (dropRelaxation constraint model) (fun _ => IsSound) SoundUnlessStuck := by
  unfold dropRelaxation
  cases constraint.relaxation with
  | none => exact h
  | some relaxation =>
    simp only [bind, EStateM.bind, run_get]
    split
    · exact removeVariable_sound h relaxation
    · exact h

/-- Removing one inequality keeps a model sound unless it got stuck. -/
theorem removeInequality_sound (h : model.IsSound) (slack : Nat) :
    Ends (removeInequality slack model) (fun _ => IsSound) SoundUnlessStuck := by
  have hquiet := h.isQuiet
  cases hconstraint : model.constraint? slack with
  | none =>
    rw [removeInequality_of_none hconstraint]
    exact fun _ => hquiet.isSound
  | some constraint =>
    rw [removeInequality_of_some hconstraint]
    apply Ends.bind (dropSlack_sound hquiet (OrderedMap.mem_keys_of_get? hconstraint))
    intro _ model' hmodel'
    exact dropRelaxation_sound hmodel'.isSound constraint

theorem removeConstraint_sound (h : model.IsSound) (reference : ConstraintRef) :
    Ends (removeConstraint reference model) (fun _ => IsSound) SoundUnlessStuck := by
  apply Ends.forM _ IsSound _ _ _ model h
  intro slack _ model hmodel
  exact removeInequality_sound hmodel slack

end Removals

/-! ## Loading and solving -/

section Solving

variable {model : Model α}

omit [Scalar α] in
/-- The slacks of constraints that fit are the keys under which they are kept. -/
theorem map_slack_values
    (hfits : ∀ entry ∈ model.constraints, entry.2.Fits model.indices entry.1) :
    model.constraints.values.map Constraint.slack = model.constraints.keys := by
  rw [OrderedMap.values, OrderedMap.keys, List.map_map]
  apply List.map_congr_left
  intro entry hentry
  exact (hfits entry hentry).slack_eq

theorem isLoadable_values
    (hfits : ∀ entry ∈ model.constraints, entry.2.Fits model.indices entry.1)
    (hapart : ∀ index ∈ model.indices, index ∉ model.constraints.keys) :
    ∀ constraint ∈ model.constraints.values, Tableau.IsLoadable model.indices constraint := by
  intro constraint hconstraint
  obtain ⟨entry, hentry, rfl⟩ := List.mem_map.1 hconstraint
  apply (hfits entry hentry).isLoadable
  intro hmem
  exact hapart entry.1 hmem (List.mem_map.2 ⟨entry, hentry, rfl⟩)

omit [Scalar α] in
theorem Fits.map_slack_values {t : Tableau α} (h : Fits model t) :
    model.constraints.values.map Constraint.slack = model.constraints.keys :=
  Model.map_slack_values h.constraint_fits

theorem Fits.isLoadable {t : Tableau α} (h : Fits model t) :
    ∀ constraint ∈ model.constraints.values, Tableau.IsLoadable model.indices constraint :=
  isLoadable_values h.constraint_fits h.apart

/-- Loading never fails if the variables are known and the constraints fit. -/
theorem load_of_fits
    (hknown : ∀ index ∈ model.indices, (model.tableau.discardSearch.lookup? index).isSome)
    (hindices : model.indices.Nodup) (hkeys : model.constraints.keys.Nodup)
    (hapart : ∀ index ∈ model.indices, index ∉ model.constraints.keys)
    (hfits : ∀ entry ∈ model.constraints, entry.2.Fits model.indices entry.1) :
    ∃ tableau, load model = .ok () { model with tableau := tableau, isLoaded := true } ∧
      tableau.precision = model.tableau.precision ∧ tableau.snapshot = none ∧
      tableau.pool = model.tableau.discardSearch.pool ∧
      tableau.arena = model.tableau.discardSearch.arena ∧
      Tableau.IsLoadedWith model.tableau.discardSearch.lookup? model.minimises
        (model.constraints.values.length + 1) (model.indices.length + 1) model.indices
        model.constraints.values tableau.dictionary := by
  have hslacks : (model.constraints.values.map Constraint.slack).Nodup := by
    rw [map_slack_values hfits]
    exact hkeys
  obtain ⟨tableau, hload, hrest⟩ := Tableau.load_eq_ok model.minimises hknown hindices hslacks
    (isLoadable_values hfits hapart)
  exact ⟨tableau, bind_of_ok (onTableau_of_ok hload), hrest⟩

/-- Loading a sound model never fails. -/
theorem load_eq_ok (h : model.IsSound) :
    ∃ tableau, load model = .ok () { model with tableau := tableau, isLoaded := true } ∧
      tableau.precision = model.tableau.precision ∧ tableau.snapshot = none ∧
      tableau.pool = model.tableau.discardSearch.pool ∧
      tableau.arena = model.tableau.discardSearch.arena ∧
      Tableau.IsLoadedWith model.tableau.discardSearch.lookup? model.minimises
        (model.constraints.values.length + 1) (model.indices.length + 1) model.indices
        model.constraints.values tableau.dictionary := by
  have hfits := h.root_fits
  exact load_of_fits (fun index hindex => (hfits.known_iff index).2 (.inl hindex))
    hfits.indices_nodup hfits.slacks_nodup hfits.apart hfits.constraint_fits

theorem ready_of_loaded (hloaded : model.isLoaded = true) : model.ready = model := by
  rw [ready, hloaded]
  rfl

theorem ready_of_not_loaded (hloaded : model.isLoaded = false) :
    model.ready = finalState (load model) := by
  rw [ready, hloaded]
  rfl

/-- A loaded tableau fits the model. -/
theorem Fits.of_isLoadedWith {t tableau : Tableau α} (h : Fits model t)
    (hpool : tableau.pool = t.pool) (harena : tableau.arena = t.arena)
    (hloaded : Tableau.IsLoadedWith t.lookup? model.minimises
      (model.constraints.values.length + 1) (model.indices.length + 1) model.indices
      model.constraints.values tableau.dictionary) :
    Fits { model with isLoaded := true } tableau := by
  have hlookup (index : Nat) : tableau.lookup? index = t.lookup? index := by
    rw [Tableau.lookup?, harena, Tableau.lookup?]
  have hpool' : tableau.HasSoundPool := h.pool.of_eq hpool harena
  have hsound : tableau.IsSound := by
    refine ⟨hpool', hloaded.isConsistent h.isLoadable, ?_⟩
    intro index
    rw [hloaded.mentions_iff, hlookup, h.known_iff, h.map_slack_values]
  have hfits := h.of_character hpool' (fun index => by
    rw [Tableau.character?, hlookup, Tableau.character?]) fun _ => hsound
  exact ⟨hfits.pool, hfits.indices_nodup, hfits.slacks_nodup, hfits.apart, hfits.known_iff,
    hfits.integers_eq, hfits.slack_character, hfits.constraint_fits, fun _ => hsound⟩

theorem solve_of_loaded (hloaded : model.isLoaded = true) (effort : Effort) :
    solve effort model = onTableau (Tableau.solve model.searchSpace effort) model := by
  unfold solve
  simp only [bind, EStateM.bind, run_get, hloaded]
  rfl

theorem solve_of_load {model' : Model α} (hloaded : model.isLoaded = false)
    (hload : load model = .ok () model') (effort : Effort) :
    solve effort model = onTableau (Tableau.solve model'.searchSpace effort) model' := by
  have hwithin : within .buildingTableau load model = .ok () model' := by
    rw [within, hload]
  have hsolve : solve effort model =
      (do
        within .buildingTableau load
        let model ← get
        onTableau (Tableau.solve model.searchSpace effort) : Action α (Solution α)) model := by
    unfold solve
    simp only [bind, EStateM.bind, run_get, hloaded]
    rfl
  rw [hsolve]
  exact bind_of_ok hwithin

/-- A solve works on a sound and loaded model with the same variables and
constraints. -/
theorem solve_eq (h : model.IsSound) (effort : Effort) :
    solve effort model = onTableau (Tableau.solve model.ready.searchSpace effort) model.ready ∧
      model.ready.IsSound ∧ model.ready.isLoaded = true ∧
      model.ready = { model with tableau := model.ready.tableau, isLoaded := true } := by
  cases hloaded : model.isLoaded with
  | true =>
    rw [ready_of_loaded hloaded]
    refine ⟨solve_of_loaded hloaded effort, h, hloaded, ?_⟩
    rw [← hloaded]
  | false =>
    obtain ⟨tableau, hload, -, hsnapshot, hpool, harena, hwith⟩ := load_eq_ok h
    rw [ready_of_not_loaded hloaded, hload]
    have hfits := h.root_fits.of_isLoadedWith hpool harena hwith
    exact ⟨solve_of_load hloaded hload effort, (hfits.isQuiet hsnapshot).isSound, rfl, rfl⟩

theorem IsSound.of_settles (h : model.IsSound) {allowed : Dictionary α → Nat → Nat → Prop}
    {t : Tableau α} (hsettles : Tableau.Settles allowed model.tableau.discardSearch t) :
    IsSound { model with tableau := t } := by
  refine ⟨hsettles.sound.toHasSoundPool, fun _ => hsettles.sound, ?_⟩
  have hfits := h.root_fits.of_character hsettles.root_sound.toHasSoundPool
    (fun index => Tableau.character?_of_traits? (hsettles.root_traits index))
    fun _ => hsettles.root_sound
  exact ⟨hfits.pool, hfits.indices_nodup, hfits.slacks_nodup, hfits.apart, hfits.known_iff,
    hfits.integers_eq, hfits.slack_character, hfits.constraint_fits, hfits.sound⟩

/-- A solve of a loaded model settles its tableau. -/
theorem IsSound.solve_settles (h : model.IsSound) (hloaded : model.isLoaded = true)
    (allowed : Dictionary α → Nat → Nat → Prop) (effort : Effort)
    (hcuts : (model.tableau.readied model.searchSpace).firstCuts model.searchSpace effort = 0)
    (hpivots : ∀ event ∈ Tableau.simplexPivots effort (model.tableau.readied model.searchSpace),
      allowed event.before.dictionary event.row event.column) :
    Tableau.Settles allowed model.tableau.discardSearch
      (finalState (Tableau.solve model.searchSpace effort model.tableau)) := by
  apply Tableau.solve_settles (h.root_fits.sound hloaded) _ effort hcuts hpivots
  intro index hindex
  apply h.root_fits.mentions hloaded
  change index ∈ model.integers at hindex
  rw [h.root_fits.integers_eq] at hindex
  exact .inl (List.mem_filter.1 hindex).1

omit [Scalar α] in
theorem finalState_onTableau {β : Type} (action : Tableau.Action α β) (model : Model α) :
    finalState (onTableau action model) =
      { model with tableau := finalState (action model.tableau) } := by
  unfold onTableau
  cases action model.tableau <;> rfl

/-- The number of rounding cuts that a solve makes at its first relaxation. -/
def rootCuts (effort : Effort) (model : Model α) : Nat :=
  (model.ready.tableau.readied model.ready.searchSpace).firstCuts model.ready.searchSpace effort

theorem AvoidsCuts.rootCuts_eq_zero (hcuts : model.AvoidsCuts) (h : model.IsSound)
    (effort : Effort) : model.rootCuts effort = 0 := by
  obtain ⟨-, -, -, hsame⟩ := solve_eq h effort
  have hspace : model.ready.searchSpace = model.searchSpace := by
    rw [hsame]
    rfl
  rw [rootCuts, hspace, Tableau.firstCuts, if_pos]
  rcases hcuts with hoff | hintegers
  · have hoff' : model.searchSpace.options.usesRoundingCuts = false := hoff
    simp [hoff']
  · have hempty : model.searchSpace.integers = [] := hintegers
    simp [hempty]

/-- However a solve ends, the model is sound afterwards, if no rounding cuts were made at
the first relaxation. -/
theorem solve_sound (h : model.IsSound) (effort : Effort) (hcuts : model.rootCuts effort = 0) :
    (finalState (solve effort model)).IsSound := by
  obtain ⟨hsolve, hready, hloaded, -⟩ := solve_eq h effort
  have hsettles := hready.solve_settles hloaded (fun _ _ _ => True) effort hcuts
    fun _ _ => trivial
  rw [hsolve, finalState_onTableau]
  exact hready.of_settles hsettles

end Solving

end MixedInteger.Model
