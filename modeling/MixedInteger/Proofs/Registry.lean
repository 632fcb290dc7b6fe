import Mathlib.Data.List.Nodup
import MixedInteger.Proofs.Incumbents
import MixedInteger.Proofs.ModelSteps

/-!
# What a model knows about its variables

After every run of operations a model knows its declared variables and the slacks of its
constraints, each by its kind, and the indices it hands out belong to none of them.  This
needs no restriction: operations that fail, rounding cuts and removals that get stuck leave
the model orderly as well.  An operation that declares no variable carries over what is known
about those that stay, apart from their values, and never makes a variable the relaxation of
a constraint anew.
-/

namespace MixedInteger

namespace Tableau

variable {α : Type} [Scalar α]

/-! ## Kinds of variables -/

section Kinds

variable {t t' middle : Tableau α} {index : Nat}

def isSlack? {β : Type} (t : Tableau β) (index : Nat) : Option Bool :=
  (t.lookup? index).map Variable.isSlack

omit [Scalar α] in
theorem isSlack?_eq (t : Tableau α) (index : Nat) :
    t.isSlack? index = (t.character? index).map fun character => character.1 == .slack := by
  rw [isSlack?, character?, Option.map_map]
  rfl

omit [Scalar α] in
theorem SameView.isSlack? (h : SameView Variable.character t t') (index : Nat) :
    t'.isSlack? index = t.isSlack? index := by
  rw [isSlack?_eq, isSlack?_eq, character?, h.view_eq, character?]

theorem isSlack?_of_traits? (htraits : t'.traits? index = t.traits? index) :
    t'.isSlack? index = t.isSlack? index := by
  have hmap (t : Tableau α) : t.isSlack? index = (t.traits? index).map Variable.isSlack := by
    rw [isSlack?, traits?, Option.map_map]
    rfl
  rw [hmap, hmap, htraits]

omit [Scalar α] in
theorem isSome_of_isSlack? {kind : Bool} (hkind : t.isSlack? index = some kind) :
    (t.lookup? index).isSome := by
  rw [← Option.isSome_map (f := Variable.isSlack), ← isSlack?, hkind]
  rfl

omit [Scalar α] in
theorem Retains.isSlack? {kind : Bool} (h : Retains t t')
    (hkind : t.isSlack? index = some kind) : t'.isSlack? index = some kind := by
  rw [Tableau.isSlack?, h.known index (isSome_of_isSlack? hkind)]
  exact hkind

theorem Retains.traits? (h : Retains t t') (hknown : (t.lookup? index).isSome) :
    t'.traits? index = t.traits? index := by
  rw [Tableau.traits?, h.known index hknown, Tableau.traits?]

theorem SameFrame.traits? (h : SameFrame t t') (index : Nat) :
    t'.traits? index = t.traits? index := by
  rw [Tableau.traits?, h.lookup?, Tableau.traits?]

/-- All variables but one are known as before, outside a search. -/
structure KeepsOthers (index : Nat) (t t' : Tableau α) : Prop where
  pool : t'.HasSoundPool
  snapshot : t'.snapshot = t.snapshot
  traits : ∀ other ≠ index, t'.traits? other = t.traits? other

theorem KeepsOthers.of_sameFrame (hpool : t.HasSoundPool) (hframe : SameFrame t t') :
    KeepsOthers index t t' :=
  ⟨hpool.of_eq hframe.pool hframe.arena, hframe.snapshot, fun other _ => hframe.traits? other⟩

theorem KeepsOthers.release (hpool : t.HasSoundPool) (hknown : (t.lookup? index).isSome)
    (hframe : SameFrame t middle) (change : Dictionary α → Dictionary α) :
    KeepsOthers index t ((middle.modifyDictionary change).release index) := by
  have hreleased : (middle.release index).HasSoundPool := by
    apply (hpool.of_eq hframe.pool hframe.arena).release
    rw [hframe.lookup?]
    exact hknown
  refine ⟨hreleased.of_eq rfl rfl, hframe.snapshot, ?_⟩
  intro other hother
  have hlookup : ((middle.modifyDictionary change).release index).lookup? other =
      (middle.release index).lookup? other := rfl
  rw [Tableau.traits?, hlookup, lookup?_release, if_neg hother, hframe.lookup?, Tableau.traits?]

end Kinds

end Tableau

namespace Model

variable {α : Type} [Scalar α]

/-! ## Orderly models -/

/-- The tableau of a model once a pending search is left. -/
def root {β : Type} (model : Model β) : Tableau β :=
  model.tableau.discardSearch

omit [Scalar α] in
theorem root_eq {model : Model α} (hquiet : model.tableau.snapshot = none) :
    model.root = model.tableau :=
  Tableau.discardSearch_eq_self hquiet

omit [Scalar α] in
@[simp]
theorem root_quiet (model : Model α) : model.quiet.root = model.root :=
  Tableau.discardSearch_discardSearch model.tableau

/-- Once a pending search is left, the tableau knows the variables and the slacks of the model by
their kinds, and the constraints speak of these variables. -/
structure IsOrderly {β : Type} (model : Model β) : Prop where
  pool : model.root.HasSoundPool
  indices_nodup : model.indices.Nodup
  slacks_nodup : model.constraints.keys.Nodup
  variable_known : ∀ index ∈ model.indices, model.root.isSlack? index = some false
  slack_known : ∀ slack ∈ model.constraints.keys, model.root.isSlack? slack = some true
  constraint_fits : ∀ entry ∈ model.constraints, entry.2.Fits model.indices entry.1

/-- A model that came from another one without new variables: what is known about those that
stayed is the same apart from their values, and only marked variables have become the
relaxation of a constraint. -/
structure Carries (marked : Nat → Prop) (model model' : Model α) : Prop where
  orderly : model'.IsOrderly
  minimises : model'.minimises = model.minimises
  indices : ∀ index ∈ model'.indices, index ∈ model.indices
  traits : ∀ index ∈ model'.indices, model'.root.traits? index = model.root.traits? index
  relaxations : ∀ index ∈ model'.relaxations, index ∈ model.relaxations ∨ marked index

section Orderly

variable {model model' model'' : Model α} {marked : Nat → Prop} {index slack : Nat}

omit [Scalar α] in
theorem mem_relaxations : index ∈ model.relaxations ↔
    ∃ entry ∈ model.constraints, entry.2.relaxation = some index := by
  rw [relaxations, List.mem_eraseDups, List.mem_filterMap]
  constructor
  · rintro ⟨constraint, hconstraint, hrelaxation⟩
    obtain ⟨entry, hentry, rfl⟩ := List.mem_map.1 hconstraint
    exact ⟨entry, hentry, hrelaxation⟩
  · rintro ⟨entry, hentry, hrelaxation⟩
    exact ⟨entry.2, List.mem_map.2 ⟨entry, hentry, rfl⟩, hrelaxation⟩

omit [Scalar α] in
theorem IsOrderly.apart (h : model.IsOrderly) (hindex : index ∈ model.indices) :
    index ∉ model.constraints.keys := by
  intro hslack
  have hkind := h.variable_known index hindex
  rw [h.slack_known index hslack] at hkind
  exact absurd hkind (by simp)

omit [Scalar α] in
/-- The index handed out next is neither a variable nor a slack. -/
theorem IsOrderly.allocate_fresh (h : model.IsOrderly) :
    model.root.pool.allocate.1 ∉ model.indices ∧
      model.root.pool.allocate.1 ∉ model.constraints.keys := by
  have hnone := h.pool.lookup?_allocate
  constructor
  · intro hindex
    have hsome := Tableau.isSome_of_isSlack? (h.variable_known _ hindex)
    rw [hnone] at hsome
    exact absurd hsome (by simp)
  · intro hslack
    have hsome := Tableau.isSome_of_isSlack? (h.slack_known _ hslack)
    rw [hnone] at hsome
    exact absurd hsome (by simp)

theorem empty_isOrderly (precision : α) (options : Options α) :
    (empty precision options).IsOrderly := by
  have hpool := (empty_isQuiet precision options).pool
  exact ⟨hpool, List.nodup_nil, List.nodup_nil, fun _ hindex => absurd hindex List.not_mem_nil,
    fun _ hslack => absurd hslack List.not_mem_nil,
    fun _ hentry => absurd hentry List.not_mem_nil⟩

/-! ### Steps that declare no variable -/

theorem Carries.refl (h : model.IsOrderly) : Carries marked model model :=
  ⟨h, rfl, fun _ hindex => hindex, fun _ _ => rfl, fun _ hindex => .inl hindex⟩

theorem Carries.trans (hfirst : Carries marked model model')
    (hsecond : Carries marked model' model'') : Carries marked model model'' := by
  refine ⟨hsecond.orderly, hsecond.minimises.trans hfirst.minimises, ?_, ?_, ?_⟩
  · intro index hindex
    exact hfirst.indices index (hsecond.indices index hindex)
  · intro index hindex
    exact (hsecond.traits index hindex).trans
      (hfirst.traits index (hsecond.indices index hindex))
  · intro index hindex
    rcases hsecond.relaxations index hindex with hold | hmarked
    · exact hfirst.relaxations index hold
    · exact .inr hmarked

/-- A step that is followed by a computation. -/
theorem Carries.ends {β : Type} {outcome : EStateM.Result Fault (Model α) β}
    (hfirst : Carries marked model model')
    (hrest : Ends outcome (fun _ => Carries marked model') fun _ => Carries marked model') :
    Ends outcome (fun _ => Carries marked model) fun _ => Carries marked model := by
  apply hrest.mono
  · intro _ model'' hsecond
    exact hfirst.trans hsecond
  · intro _ model'' hsecond
    exact hfirst.trans hsecond

omit [Scalar α] in
/-- A step that keeps the variables and the slacks. -/
theorem IsOrderly.of_same (h : model.IsOrderly) (hindices : model'.indices = model.indices)
    (hkeys : model'.constraints.keys = model.constraints.keys)
    (hfits : ∀ entry ∈ model'.constraints, entry.2.Fits model.indices entry.1)
    (hpool : model'.root.HasSoundPool)
    (hkinds : ∀ index, (model.root.lookup? index).isSome →
      model'.root.isSlack? index = model.root.isSlack? index) : model'.IsOrderly := by
  refine ⟨hpool, ?_, ?_, ?_, ?_, ?_⟩
  · rw [hindices]
    exact h.indices_nodup
  · rw [hkeys]
    exact h.slacks_nodup
  · rw [hindices]
    intro index hindex
    have hkind := h.variable_known index hindex
    exact (hkinds index (Tableau.isSome_of_isSlack? hkind)).trans hkind
  · rw [hkeys]
    intro slack hslack
    have hkind := h.slack_known slack hslack
    exact (hkinds slack (Tableau.isSome_of_isSlack? hkind)).trans hkind
  · rw [hindices]
    exact hfits

theorem carries_of_same (h : model.IsOrderly) (hminimises : model'.minimises = model.minimises)
    (hindices : model'.indices = model.indices)
    (hkeys : model'.constraints.keys = model.constraints.keys)
    (hfits : ∀ entry ∈ model'.constraints, entry.2.Fits model.indices entry.1)
    (hrelaxations : ∀ index ∈ model'.relaxations, index ∈ model.relaxations ∨ marked index)
    (hpool : model'.root.HasSoundPool)
    (htraits : ∀ index, (model.root.lookup? index).isSome →
      model'.root.traits? index = model.root.traits? index) :
    Carries marked model model' := by
  refine ⟨?_, hminimises, ?_, ?_, hrelaxations⟩
  · exact h.of_same hindices hkeys hfits hpool fun index hindex =>
      Tableau.isSlack?_of_traits? (htraits index hindex)
  · rw [hindices]
    exact fun _ hindex => hindex
  · rw [hindices]
    intro index hindex
    exact htraits index (Tableau.isSome_of_isSlack? (h.variable_known index hindex))

/-- A step that changes the tableau alone, and there no variable. -/
theorem carries_of_tableau (h : model.IsOrderly) {t : Tableau α}
    (hpool : t.discardSearch.HasSoundPool)
    (htraits : ∀ index, (model.root.lookup? index).isSome →
      t.discardSearch.traits? index = model.root.traits? index) (isLoaded : Bool) :
    Carries marked model { model with tableau := t, isLoaded := isLoaded } :=
  carries_of_same h rfl rfl rfl h.constraint_fits (fun _ hindex => .inl hindex) hpool htraits

theorem carries_quiet (h : model.IsOrderly) : Carries marked model model.quiet := by
  apply carries_of_tableau h
  · exact h.pool.of_eq (congrArg Tableau.pool (root_quiet model))
      (congrArg Tableau.arena (root_quiet model))
  · intro index _
    exact congrArg (Tableau.traits? · index) (root_quiet model)

/-- An edit of the dictionary of a model outside a search. -/
theorem ends_onTableau_carries (h : model.IsOrderly) (hquiet : model.tableau.snapshot = none)
    {action : Tableau.Action α Unit}
    (haction : Ends (action model.tableau) (fun _ => Tableau.SameFrame model.tableau)
      fun _ => Tableau.SameFrame model.tableau) :
    Ends (onTableau action model)
      (fun _ model' => Carries marked model model' ∧ model'.indices = model.indices)
      fun _ => Carries marked model := by
  have hcarries (t : Tableau α) (hframe : Tableau.SameFrame model.tableau t) :
      Carries marked model { model with tableau := t } := by
    have hroot := root_eq hquiet
    have hsame : t.discardSearch = t :=
      Tableau.discardSearch_eq_self (hframe.snapshot.trans hquiet)
    have hpool := h.pool
    rw [hroot] at hpool
    apply carries_of_tableau h
    · rw [hsame]
      exact hpool.of_eq hframe.pool hframe.arena
    · intro index _
      rw [hsame, hroot]
      exact hframe.traits? index
  apply ends_onTableau
  apply haction.mono
  · intro _ t hframe
    exact ⟨hcarries t hframe, rfl⟩
  · intro _ t hframe
    exact hcarries t hframe

/-- A change of one constraint outside a search. -/
theorem carries_modify (h : model.IsOrderly) {change : Constraint α → Constraint α}
    (hfits : ∀ constraint, constraint.Fits model.indices slack →
      (change constraint).Fits model.indices slack)
    (hrelaxation : ∀ constraint, (slack, constraint) ∈ model.constraints →
      ∀ index, (change constraint).relaxation = some index →
        index ∈ model.relaxations ∨ marked index) :
    Carries marked model
      { model with constraints := model.constraints.modify slack change } := by
  refine carries_of_same h rfl rfl (OrderedMap.keys_modify ..) ?_ ?_ h.pool fun _ _ => rfl
  · intro entry hentry
    rcases OrderedMap.mem_modify hentry with hold | ⟨constraint, hmem, rfl⟩
    · exact h.constraint_fits entry hold
    · exact hfits constraint (h.constraint_fits _ hmem)
  · intro index hindex
    obtain ⟨entry, hentry, hsome⟩ := mem_relaxations.1 hindex
    rcases OrderedMap.mem_modify hentry with hold | ⟨constraint, hmem, rfl⟩
    · exact .inl (mem_relaxations.2 ⟨entry, hold, hsome⟩)
    · exact hrelaxation constraint hmem index hsome

/-- A constraint that is replaced by one with the same relaxation. -/
theorem carries_withConstraint (h : model.IsOrderly) {constraint constraint' : Constraint α}
    (hsome : model.constraint? slack = some constraint)
    (hfits : constraint'.Fits model.indices slack)
    (hrelaxation : constraint'.relaxation = constraint.relaxation) :
    Carries marked model (model.withConstraint slack constraint') := by
  apply carries_modify h
  · exact fun _ _ => hfits
  · intro _ _ index hindex
    exact .inl (mem_relaxations.2
      ⟨_, OrderedMap.mem_of_get? hsome, hrelaxation.symm.trans hindex⟩)

end Orderly

/-! ## Changes of inequalities -/

section Inequalities

variable {model model' : Model α} {marked : Nat → Prop} {index slack : Nat}

theorem setInequalityCoefficient_carries (h : model.IsOrderly) (hindex : index ∈ model.indices)
    (slack : Nat) (coefficient : α) :
    Ends (setInequalityCoefficient slack coefficient index model)
      (fun _ model' => Carries marked model model' ∧ model'.indices = model.indices)
      fun _ => Carries marked model := by
  have hquiet : Carries marked model model.quiet := carries_quiet h
  cases hconstraint : model.constraint? slack with
  | none =>
    rw [setInequalityCoefficient_of_none hconstraint]
    exact hquiet
  | some constraint =>
    have hfits := hquiet.orderly.constraint_fits _ (OrderedMap.mem_of_get? hconstraint)
    have hwritten : Carries marked model (model.quiet.withConstraint slack
        (constraint.setCoefficient index coefficient)) :=
      hquiet.trans (carries_withConstraint hquiet.orderly hconstraint
        (hfits.setCoefficient hindex coefficient) rfl)
    rw [setInequalityCoefficient_of_some hconstraint]
    split
    · apply (ends_onTableau_carries hwritten.orderly rfl
        (Tableau.changeCoefficient_frame rfl slack constraint.isUpperBound index
          (differenceTo constraint index coefficient))).mono
      · rintro _ model' ⟨hmodel', hindices⟩
        exact ⟨hwritten.trans hmodel', hindices⟩
      · intro _ model' hmodel'
        exact hwritten.trans hmodel'
    · exact ⟨hwritten, rfl⟩

theorem setInequalityRhs_carries (h : model.IsOrderly) (slack : Nat) (rhs : α) :
    Ends (setInequalityRhs slack rhs model) (fun _ => Carries marked model)
      fun _ => Carries marked model := by
  have hquiet : Carries marked model model.quiet := carries_quiet h
  cases hconstraint : model.constraint? slack with
  | none =>
    rw [setInequalityRhs_of_none hconstraint]
    exact hquiet
  | some constraint =>
    have hfits := hquiet.orderly.constraint_fits _ (OrderedMap.mem_of_get? hconstraint)
    have hwritten : Carries marked model
        (model.quiet.withConstraint slack { constraint with rhs := rhs }) :=
      hquiet.trans (carries_withConstraint hquiet.orderly hconstraint
        ⟨hfits.slack_eq, hfits.terms_mem, hfits.terms_nodup, hfits.relaxation_mem⟩ rfl)
    rw [setInequalityRhs_of_some hconstraint]
    split
    · apply (ends_onTableau_carries hwritten.orderly rfl
        (Tableau.changeRhs_frame rfl slack constraint.isUpperBound (rhs - constraint.rhs))).mono
      · rintro _ model' ⟨hmodel', -⟩
        exact hwritten.trans hmodel'
      · intro _ model' hmodel'
        exact hwritten.trans hmodel'
    · exact hwritten

theorem relaxInequality_carries (h : model.IsOrderly) (hindex : index ∈ model.indices)
    (slack : Nat) :
    Ends (relaxInequality index slack model)
      (fun _ model' => Carries (· = index) model model' ∧ model'.indices = model.indices)
      fun _ => Carries (· = index) model := by
  unfold relaxInequality
  cases hconstraint : model.constraint? slack with
  | none =>
    rw [bind_of_error (inequality_of_none hconstraint)]
    exact .refl h
  | some constraint =>
    rw [bind_of_ok (inequality_of_some hconstraint)]
    apply Ends.bind (setInequalityCoefficient_carries h hindex slack
      (if constraint.isUpperBound then -1 else 1))
    rintro _ model' ⟨hmodel', hindices⟩
    refine ⟨hmodel'.trans (carries_modify hmodel'.orderly ?_ ?_), hindices⟩
    · intro constraint' hfits
      refine ⟨hfits.slack_eq, hfits.terms_mem, hfits.terms_nodup, ?_⟩
      rintro _ ⟨⟩
      rw [hindices]
      exact hindex
    · rintro _ - _ ⟨⟩
      exact .inr rfl

/-- Changing one inequality after the other. -/
theorem forM_carries (h : model.IsOrderly) (hindex : index ∈ model.indices)
    (slacks : List Nat) {body : Nat → Action α Unit}
    (hbody : ∀ slack model, model.IsOrderly → index ∈ model.indices →
      Ends (body slack model)
        (fun _ model' => Carries marked model model' ∧ model'.indices = model.indices)
        fun _ => Carries marked model) :
    Ends (slacks.forM body model)
      (fun _ model' => Carries marked model model' ∧ model'.indices = model.indices)
      fun _ => Carries marked model := by
  apply Ends.forM body
    (fun model' => Carries marked model model' ∧ model'.indices = model.indices) _ slacks
  · rintro slack - middle ⟨hmiddle, hindices⟩
    apply (hbody slack middle hmiddle.orderly (by rw [hindices]; exact hindex)).mono
    · rintro _ model' ⟨hmodel', hindices'⟩
      exact ⟨hmiddle.trans hmodel', hindices'.trans hindices⟩
    · intro _ model' hmodel'
      exact hmiddle.trans hmodel'
  · exact ⟨.refl h, rfl⟩

theorem setCoefficient_carries (h : model.IsOrderly) (reference : ConstraintRef)
    (coefficient : α) (index : Nat) :
    Ends (setCoefficient reference coefficient index model) (fun _ => Carries marked model)
      fun _ => Carries marked model := by
  apply ends_requireVariable (Carries.refl h)
  intro hindex
  apply (forM_carries h hindex reference.slacks _).mono (fun _ _ hpost => hpost.1)
    fun _ _ hfailed => hfailed
  intro slack model hmodel hmem
  exact setInequalityCoefficient_carries hmodel hmem slack coefficient

theorem addTerm_carries (h : model.IsOrderly) (reference : ConstraintRef) (coefficient : α)
    (index : Nat) :
    Ends (addTerm reference coefficient index model) (fun _ => Carries marked model)
      fun _ => Carries marked model := by
  apply ends_requireVariable (Carries.refl h)
  intro hindex
  apply (forM_carries h hindex reference.slacks _).mono (fun _ _ hpost => hpost.1)
    fun _ _ hfailed => hfailed
  intro slack model hmodel hmem
  cases hconstraint : model.constraint? slack with
  | none =>
    rw [bind_of_error (inequality_of_none hconstraint)]
    exact .refl hmodel
  | some constraint =>
    rw [bind_of_ok (inequality_of_some hconstraint)]
    exact setInequalityCoefficient_carries hmodel hmem slack _

/-- Operations one after the other, each of which declares no variable. -/
theorem forM_carries_all (h : model.IsOrderly) (slacks : List Nat) {body : Nat → Action α Unit}
    (hbody : ∀ slack model, model.IsOrderly →
      Ends (body slack model) (fun _ => Carries marked model) fun _ => Carries marked model) :
    Ends (slacks.forM body model) (fun _ => Carries marked model)
      fun _ => Carries marked model := by
  apply Ends.forM body (Carries marked model) _ slacks
  · intro slack _ middle hmiddle
    exact hmiddle.ends (hbody slack middle hmiddle.orderly)
  · exact .refl h

theorem setRhs_carries (h : model.IsOrderly) (reference : ConstraintRef) (rhs : α) :
    Ends (setRhs reference rhs model) (fun _ => Carries marked model)
      fun _ => Carries marked model :=
  forM_carries_all h reference.slacks fun slack _ hmodel =>
    setInequalityRhs_carries hmodel slack rhs

end Inequalities

/-! ## New inequalities and removals -/

section Removals

variable {model model' : Model α} {marked : Nat → Prop} {index slack : Nat}

omit [Scalar α] in
/-- A model whose tableau has registered a new variable. -/
theorem retains_register (h : model.IsOrderly) {make : Nat → Variable α}
    (hmake : ∀ index, (make index).index = index)
    (hframe : Tableau.SameFrame (model.root.register make).2 model'.tableau) :
    Tableau.Retains model.root model'.root ∧
      model'.root.lookup? model.root.pool.allocate.1 =
        some (make model.root.pool.allocate.1) := by
  have hroot : model'.root = model'.tableau := root_eq hframe.snapshot
  have hregistered : Tableau.Retains model.root (model.root.register make).2 :=
    Tableau.Retains.register h.pool hmake
  rw [hroot]
  refine ⟨hregistered.trans (.of_eq hregistered.pool hframe.pool hframe.arena), ?_⟩
  rw [hframe.lookup?, Tableau.lookup?_register (hmake _), if_pos rfl]

theorem carries_withInequality (h : model.IsOrderly) (rhs : α) (isUpperBound : Bool) :
    Carries marked model (model.quiet.withInequality rhs isUpperBound) := by
  obtain ⟨-, hslack⟩ := h.allocate_fresh
  -- a loaded tableau gets a row, which concerns the dictionary alone
  have hframe : Tableau.SameFrame model.root.registerSlack.2
      (model.quiet.withInequality rhs isUpperBound).tableau := by
    unfold withInequality
    dsimp only
    split <;> exact ⟨rfl, rfl, rfl, rfl, rfl⟩
  obtain ⟨hretains, hnew⟩ := retains_register h (fun _ => rfl) hframe
  have hinserted : (model.quiet.withInequality rhs isUpperBound).constraints =
      model.constraints ++ [(model.root.pool.allocate.1,
        Constraint.bound model.root.pool.allocate.1 rhs isUpperBound)] :=
    OrderedMap.insert_of_not_mem hslack _
  have hkeys : (model.quiet.withInequality rhs isUpperBound).constraints.keys =
      model.constraints.keys ++ [model.root.pool.allocate.1] := by
    rw [hinserted, OrderedMap.keys, List.map_append]
    rfl
  refine ⟨⟨hretains.pool, h.indices_nodup, ?_, ?_, ?_, ?_⟩, rfl, fun _ hmem => hmem, ?_, ?_⟩
  · rw [hkeys, ← List.concat_eq_append]
    exact h.slacks_nodup.concat hslack
  · intro other hother
    exact hretains.isSlack? (h.variable_known other hother)
  · rw [hkeys]
    intro other hother
    cases List.mem_append.1 hother with
    | inl hmem => exact hretains.isSlack? (h.slack_known other hmem)
    | inr hsame =>
      rw [List.mem_singleton.1 hsame, Tableau.isSlack?, hnew]
      rfl
  · rw [hinserted]
    intro entry hentry
    cases List.mem_append.1 hentry with
    | inl hmem => exact h.constraint_fits entry hmem
    | inr hsame =>
      rw [List.mem_singleton.1 hsame]
      exact Constraint.Fits.bound ..
  · intro other hother
    exact hretains.traits? (Tableau.isSome_of_isSlack? (h.variable_known other hother))
  · intro other hother
    obtain ⟨entry, hentry, hsome⟩ := mem_relaxations.1 hother
    rw [hinserted] at hentry
    cases List.mem_append.1 hentry with
    | inl hmem => exact .inl (mem_relaxations.2 ⟨entry, hmem, hsome⟩)
    | inr hsame =>
      rw [List.mem_singleton.1 hsame] at hsome
      exact absurd hsome (by simp [Constraint.bound])

theorem addInequality_carries (h : model.IsOrderly) (rhs : α) (isUpperBound : Bool) :
    Ends (addInequality rhs isUpperBound model) (fun _ => Carries marked model)
      fun _ => Carries marked model := by
  rw [addInequality_eq]
  exact carries_withInequality h rhs isUpperBound

theorem equal_carries (h : model.IsOrderly) (rhs : α) :
    Ends (equal rhs model) (fun _ => Carries marked model) fun _ => Carries marked model := by
  apply Ends.bind (addInequality_carries h rhs true)
  intro upper middle hmiddle
  apply Ends.bind (hmiddle.ends (addInequality_carries hmiddle.orderly rhs false))
  intro lower model' hmodel'
  exact hmodel'

/-- A model that has lost a variable or a slack, over a tableau that knows all others. -/
theorem carries_of_keepsOthers (h : model.IsOrderly) (hquiet : model.tableau.snapshot = none)
    (ht : Tableau.KeepsOthers index model.tableau model'.tableau)
    (hminimises : model'.minimises = model.minimises)
    (hindices : ∀ other ∈ model'.indices, other ∈ model.indices ∧ other ≠ index)
    (hindices_nodup : model'.indices.Nodup)
    (hkeys : ∀ other ∈ model'.constraints.keys, other ∈ model.constraints.keys ∧ other ≠ index)
    (hkeys_nodup : model'.constraints.keys.Nodup)
    (hfits : ∀ entry ∈ model'.constraints, entry.2.Fits model'.indices entry.1)
    (hrelaxations : ∀ other ∈ model'.relaxations, other ∈ model.relaxations) :
    Carries marked model model' := by
  have hroot' : model'.root = model'.tableau := root_eq (ht.snapshot.trans hquiet)
  have hold (other : Nat) (hne : other ≠ index) :
      model'.root.traits? other = model.root.traits? other := by
    rw [hroot', root_eq hquiet]
    exact ht.traits other hne
  refine ⟨⟨?_, hindices_nodup, hkeys_nodup, ?_, ?_, hfits⟩, hminimises, ?_, ?_, ?_⟩
  · rw [hroot']
    exact ht.pool
  · intro other hother
    obtain ⟨hother, hne⟩ := hindices other hother
    exact (Tableau.isSlack?_of_traits? (hold other hne)).trans (h.variable_known other hother)
  · intro other hother
    obtain ⟨hother, hne⟩ := hkeys other hother
    exact (Tableau.isSlack?_of_traits? (hold other hne)).trans (h.slack_known other hother)
  · intro other hother
    exact (hindices other hother).1
  · intro other hother
    exact hold other (hindices other hother).2
  · intro other hother
    exact .inl (hrelaxations other hother)

theorem carries_withoutVariable (h : model.IsOrderly) (hquiet : model.tableau.snapshot = none)
    (hindex : index ∈ model.indices) {t : Tableau α}
    (ht : Tableau.KeepsOthers index model.tableau t) :
    Carries marked model { model.withoutVariable index with tableau := t } := by
  have hmem (other : Nat) : other ∈ (model.withoutVariable index).indices ↔
      other ∈ model.indices ∧ other ≠ index := by
    rw [withoutVariable, h.indices_nodup.erase_eq_filter, List.mem_filter, bne_iff_ne]
  have hkeys := keys_withoutVariable model index
  refine carries_of_keepsOthers h hquiet ht rfl ?_ ?_ ?_ ?_ ?_ ?_
  · intro other hother
    exact (hmem other).1 hother
  · exact h.indices_nodup.erase index
  · intro other hother
    have hslack : other ∈ model.constraints.keys := hkeys ▸ hother
    refine ⟨hslack, ?_⟩
    rintro rfl
    exact h.apart hindex hslack
  · exact hkeys ▸ h.slacks_nodup
  · intro entry hentry
    obtain ⟨before, hbefore, rfl⟩ := List.mem_map.1 hentry
    apply ((h.constraint_fits before hbefore).forget index).mono
    intro other hother
    obtain ⟨hother, hne⟩ := List.mem_filter.1 hother
    exact (hmem other).2 ⟨hother, by simpa using hne⟩
  · intro other hother
    obtain ⟨entry, hentry, hsome⟩ := mem_relaxations.1 hother
    obtain ⟨before, hbefore, rfl⟩ := List.mem_map.1 hentry
    simp only [Constraint.forget] at hsome
    split at hsome
    · exact absurd hsome (by simp)
    · exact mem_relaxations.2 ⟨before, hbefore, hsome⟩

theorem carries_withoutConstraint (h : model.IsOrderly) (hquiet : model.tableau.snapshot = none)
    (hslack : slack ∈ model.constraints.keys) {t : Tableau α}
    (ht : Tableau.KeepsOthers slack model.tableau t) :
    Carries marked model { model.withoutConstraint slack with tableau := t } := by
  have hkeys : (model.withoutConstraint slack).constraints.keys =
      model.constraints.keys.filter fun other => other != slack :=
    OrderedMap.keys_erase ..
  refine carries_of_keepsOthers h hquiet ht rfl ?_ ?_ ?_ ?_ ?_ ?_
  · intro other hother
    refine ⟨hother, ?_⟩
    rintro rfl
    exact h.apart hother hslack
  · exact h.indices_nodup
  · intro other hother
    have hother : other ∈ model.constraints.keys.filter fun other => other != slack :=
      hkeys ▸ hother
    rw [List.mem_filter, bne_iff_ne] at hother
    exact hother
  · exact hkeys ▸ h.slacks_nodup.filter _
  · intro entry hentry
    exact h.constraint_fits entry (OrderedMap.mem_erase_iff.1 hentry).1
  · intro other hother
    obtain ⟨entry, hentry, hsome⟩ := mem_relaxations.1 hother
    exact mem_relaxations.2 ⟨entry, (OrderedMap.mem_erase_iff.1 hentry).1, hsome⟩

/-- The tableau edit of a removal: it releases the index, or changes the dictionary at most. -/
theorem keepsOthers_of_removal {t : Tableau α} (hpool : t.HasSoundPool)
    (hknown : (t.lookup? index).isSome) {action : Tableau.Action α Unit}
    (haction : Ends (action t)
      (fun _ t' => ∃ middle change, Tableau.SameFrame t middle ∧
        t' = (middle.modifyDictionary change).release index)
      fun _ => Tableau.SameFrame t) :
    Ends (action t) (fun _ => Tableau.KeepsOthers index t)
      fun _ => Tableau.KeepsOthers index t := by
  apply haction.mono
  · rintro _ _ ⟨middle, change, hframe, rfl⟩
    exact .release hpool hknown hframe change
  · intro _ t' hframe
    exact .of_sameFrame hpool hframe

theorem removeVariable_carries (h : model.IsOrderly) (index : Nat) :
    Ends (removeVariable index model) (fun _ => Carries marked model)
      fun _ => Carries marked model := by
  have hquiet : Carries marked model model.quiet := carries_quiet h
  by_cases hindex : index ∈ model.indices
  · have hknown := Tableau.isSome_of_isSlack? (h.variable_known index hindex)
    have hkeeps (t : Tableau α) (ht : Tableau.KeepsOthers index model.root t) :
        Carries marked model { model.quiet.withoutVariable index with tableau := t } :=
      hquiet.trans (carries_withoutVariable hquiet.orderly rfl hindex ht)
    rw [removeVariable_of_mem hindex]
    split
    · apply ends_onTableau
      exact (keepsOthers_of_removal h.pool hknown
        (Tableau.removeVariable_frame rfl index)).mono (fun _ => hkeeps) fun _ => hkeeps
    · exact hkeeps _ (.release h.pool hknown (Tableau.SameFrame.refl _) id)
  · have herror : removeVariable index model = .error _ model.quiet :=
      (bind_of_ok (discardSearch_eq model)).trans
        (bind_of_error (requireVariable_of_not_mem hindex))
    rw [herror]
    exact hquiet

theorem dropSlack_carries (h : model.IsOrderly) (hquiet : model.tableau.snapshot = none)
    (hslack : slack ∈ model.constraints.keys) :
    Ends (dropSlack model.isLoaded slack (model.withoutConstraint slack))
      (fun _ => Carries marked model) fun _ => Carries marked model := by
  have hpool := h.pool
  have hknown := Tableau.isSome_of_isSlack? (h.slack_known slack hslack)
  rw [root_eq hquiet] at hpool hknown
  have hkeeps (t : Tableau α) (ht : Tableau.KeepsOthers slack model.tableau t) :
      Carries marked model { model.withoutConstraint slack with tableau := t } :=
    carries_withoutConstraint h hquiet hslack ht
  unfold dropSlack
  split
  · apply ends_onTableau
    exact (keepsOthers_of_removal hpool hknown
      (Tableau.removeConstraint_frame hquiet slack)).mono (fun _ => hkeeps) fun _ => hkeeps
  · exact hkeeps _ (.release hpool hknown (Tableau.SameFrame.refl _) id)

theorem dropRelaxation_carries (h : model.IsOrderly) (constraint : Constraint α) :
    Ends (dropRelaxation constraint model) (fun _ => Carries marked model)
      fun _ => Carries marked model := by
  unfold dropRelaxation
  cases constraint.relaxation with
  | none => exact .refl h
  | some relaxation =>
    simp only [bind, EStateM.bind, run_get]
    split
    · exact removeVariable_carries h relaxation
    · exact .refl h

theorem removeInequality_carries (h : model.IsOrderly) (slack : Nat) :
    Ends (removeInequality slack model) (fun _ => Carries marked model)
      fun _ => Carries marked model := by
  have hquiet : Carries marked model model.quiet := carries_quiet h
  cases hconstraint : model.constraint? slack with
  | none =>
    rw [removeInequality_of_none hconstraint]
    exact hquiet
  | some constraint =>
    rw [removeInequality_of_some hconstraint]
    apply Ends.bind (hquiet.ends (dropSlack_carries hquiet.orderly rfl
      (OrderedMap.mem_keys_of_get? hconstraint)))
    intro _ middle hmiddle
    exact hmiddle.ends (dropRelaxation_carries hmiddle.orderly constraint)

end Removals

/-! ## Solves -/

section Solves

variable {model : Model α} {marked : Nat → Prop}

/-- Loading an orderly model never fails. -/
theorem IsOrderly.load_eq_ok (h : model.IsOrderly) :
    ∃ tableau, load model = .ok () { model with tableau := tableau, isLoaded := true } ∧
      tableau.precision = model.tableau.precision ∧ tableau.snapshot = none ∧
      tableau.pool = model.root.pool ∧ tableau.arena = model.root.arena ∧
      Tableau.IsLoadedWith model.root.lookup? model.minimises
        (model.constraints.values.length + 1) (model.indices.length + 1) model.indices
        model.constraints.values tableau.dictionary :=
  load_of_fits (fun index hindex => Tableau.isSome_of_isSlack? (h.variable_known index hindex))
    h.indices_nodup h.slacks_nodup (fun _ => h.apart) h.constraint_fits

theorem IsOrderly.ready_eq (h : model.IsOrderly) (effort : Effort) :
    solve effort model = onTableau (Tableau.solve model.ready.searchSpace effort) model.ready ∧
      Carries marked model model.ready ∧
      model.ready = { model with tableau := model.ready.tableau, isLoaded := true } := by
  cases hloaded : model.isLoaded with
  | true =>
    rw [ready_of_loaded hloaded]
    refine ⟨solve_of_loaded hloaded effort, .refl h, ?_⟩
    rw [← hloaded]
  | false =>
    obtain ⟨tableau, hload, -, hsnapshot, hpool, harena, -⟩ := h.load_eq_ok
    rw [ready_of_not_loaded hloaded, hload]
    refine ⟨solve_of_load hloaded hload effort, ?_, rfl⟩
    have hroot : tableau.discardSearch = tableau := Tableau.discardSearch_eq_self hsnapshot
    apply carries_of_tableau h
    · rw [hroot]
      exact h.pool.of_eq hpool harena
    · intro index _
      rw [hroot, Tableau.traits?, Tableau.lookup?, harena, ← Tableau.lookup?, Tableau.traits?]

/-- A solve forgets no variable, however it ends. -/
theorem solve_carries (h : model.IsOrderly) (effort : Effort) :
    Carries marked model (finalState (solve effort model)) := by
  obtain ⟨hsolve, (hready : Carries marked model model.ready), -⟩ := h.ready_eq effort
  obtain ⟨t', hstems, hview⟩ := Tableau.solve_stems hready.orderly.pool
    model.ready.searchSpace effort
  have hretains := hstems.retains
  rw [hsolve, finalState_onTableau]
  apply hready.trans
  apply carries_of_tableau hready.orderly
  · exact hview.discardSearch.hasSoundPool hretains.pool
  · intro index hindex
    exact (hview.discardSearch.view_eq index).trans (hretains.traits? hindex)

end Solves

/-! ## New variables, costs and directions -/

section Notes

variable {model : Model α} {marked : Nat → Prop} {index : Nat}

/-- A model with one more variable. -/
structure Declares (declaration : Declaration α) (index : Nat) (model model' : Model α) :
    Prop where
  orderly : model'.IsOrderly
  indices : model'.indices = model.indices ++ [index]
  constraints : model'.constraints = model.constraints
  minimises : model'.minimises = model.minimises
  declared : model'.root.lookup? index = some (declaration.toVariable index)
  traits : ∀ other ∈ model.indices, model'.root.traits? other = model.root.traits? other

theorem declares_withVariable (h : model.IsOrderly) (declaration : Declaration α) :
    Declares declaration model.root.pool.allocate.1 model
      (model.quiet.withVariable declaration) := by
  obtain ⟨hindex, -⟩ := h.allocate_fresh
  -- a loaded tableau gets a column, which concerns the dictionary alone
  have hframe : Tableau.SameFrame (model.root.register declaration.toVariable).2
      (model.quiet.withVariable declaration).tableau := by
    unfold withVariable
    dsimp only
    split <;> exact ⟨rfl, rfl, rfl, rfl, rfl⟩
  obtain ⟨hretains, hnew⟩ := retains_register h (fun _ => rfl) hframe
  refine ⟨⟨hretains.pool, ?_, h.slacks_nodup, ?_, ?_, ?_⟩, rfl, rfl, rfl, hnew, ?_⟩
  · change (model.indices ++ [model.root.pool.allocate.1]).Nodup
    rw [← List.concat_eq_append]
    exact h.indices_nodup.concat hindex
  · intro other hother
    cases List.mem_append.1 hother with
    | inl hmem => exact hretains.isSlack? (h.variable_known other hmem)
    | inr hsame =>
      rw [List.mem_singleton.1 hsame]
      refine (congrArg (Option.map Variable.isSlack) hnew).trans ?_
      cases hinteger : declaration.isInteger <;>
        simp [Declaration.toVariable, Variable.declare, Variable.isSlack, hinteger]
  · intro slack hmem
    exact hretains.isSlack? (h.slack_known slack hmem)
  · intro entry hentry
    exact (h.constraint_fits entry hentry).mono fun _ hmem => List.mem_append_left _ hmem
  · intro other hother
    exact hretains.traits? (Tableau.isSome_of_isSlack? (h.variable_known other hother))

omit [Scalar α] in
/-- A change of costs keeps a model orderly. -/
theorem IsOrderly.of_sameView (h : model.IsOrderly) {model' : Model α}
    (hview : Tableau.SameView Variable.character model.root model'.root)
    (hindices : model'.indices = model.indices)
    (hconstraints : model'.constraints = model.constraints) : model'.IsOrderly := by
  apply h.of_same hindices (by rw [hconstraints]) (by rw [hconstraints]; exact h.constraint_fits)
    (hview.hasSoundPool h.pool)
  intro index _
  exact hview.isSlack? index

omit [Scalar α] in
theorem IsOrderly.withCost (h : model.IsOrderly) (index : Nat) (cost : α) :
    (model.quiet.withCost index cost).IsOrderly := by
  have hroot : (model.quiet.withCost index cost).root =
      (model.quiet.withCost index cost).tableau := root_eq rfl
  have hview : Tableau.SameView Variable.character model.root
      (model.quiet.withCost index cost).root := by
    rw [hroot]
    exact sameView_withCost model.quiet index cost
  exact h.of_sameView hview rfl rfl

theorem setCost_carries (h : model.IsOrderly) (hindex : index ∈ model.indices) (cost : α) :
    Ends (setCost cost index model) (fun _ => Carries marked (model.quiet.withCost index cost))
      fun _ => Carries marked (model.quiet.withCost index cost) := by
  obtain ⟨data, hdata⟩ := Option.isSome_iff_exists.1
    (Tableau.isSome_of_isSlack? (h.variable_known index hindex))
  rw [setCost_of_mem hindex hdata]
  split
  · exact (ends_onTableau_carries (h.withCost index cost) rfl
      (Tableau.changeCost_frame rfl index data.priority model.minimises (cost - data.cost))).mono
      (fun _ _ hpost => hpost.1) fun _ _ hfailed => hfailed
  · exact .refl (h.withCost index cost)

theorem IsOrderly.setDirection (h : model.IsOrderly) (minimises : Bool) :
    (model.setDirection minimises).IsOrderly := by
  unfold Model.setDirection
  split
  · exact h
  · let turned : Model α := { model.quiet with minimises := minimises, isLoaded := false }
    have hview : Tableau.SameView Variable.character model.root
        turned.negateRelaxationCosts.tableau := sameView_negateRelaxationCosts turned
    have hroot : turned.negateRelaxationCosts.root = turned.negateRelaxationCosts.tableau :=
      root_eq hview.snapshot
    rw [← hroot] at hview
    exact h.of_sameView hview rfl rfl

end Notes

end Model

/-! ## Along runs -/

namespace Operation

variable {α : Type} [Scalar α]

/-- The model once an operation has noted what it says about variables: a new one, another
cost or another direction. -/
def noted (model : Model α) : Operation α → Model α
  | setOptions options => { model with options := options }
  | minimise => model.setDirection true
  | maximise => model.setDirection false
  | addVariable declaration => model.quiet.withVariable declaration
  | relax _ weight priority =>
    if priority.isRequired then model
    else model.numbered.quiet.withVariable (model.relaxationDeclaration weight priority)
  | setCost cost index =>
    if model.indices.contains index then model.quiet.withCost index cost else model
  | _ => model

/-- The variables that an operation makes the relaxation of a constraint. -/
def Marks (model : Model α) (operation : Operation α) (index : Nat) : Prop :=
  match operation with
  | relax _ _ _ => index = model.root.pool.allocate.1
  | _ => False

section Steps

variable {model : Model α}

omit [Scalar α] in
/-- The number of the next relaxation plays no part. -/
theorem numbered_orderly (h : model.IsOrderly) : model.numbered.IsOrderly :=
  ⟨h.pool, h.indices_nodup, h.slacks_nodup, h.variable_known, h.slack_known, h.constraint_fits⟩

theorem noted_orderly (h : model.IsOrderly) (operation : Operation α) :
    (operation.noted model).IsOrderly := by
  cases operation with
  | setOptions options =>
    exact ⟨h.pool, h.indices_nodup, h.slacks_nodup, h.variable_known, h.slack_known,
      h.constraint_fits⟩
  | minimise => exact h.setDirection true
  | maximise => exact h.setDirection false
  | addVariable declaration => exact (Model.declares_withVariable h declaration).orderly
  | relax reference weight priority =>
    rw [noted]
    split
    · exact h
    · exact (Model.declares_withVariable (numbered_orderly h) _).orderly
  | setCost cost index =>
    rw [noted]
    split
    · exact h.withCost index cost
    · exact h
  | _ => exact h

/-- What an operation has noted is carried over to its end, whether it succeeds or not. -/
theorem result_carries (h : model.IsOrderly) (operation : Operation α) :
    Model.Carries (operation.Marks model) (operation.noted model) (operation.result model) := by
  have hnoted := noted_orderly h operation
  cases operation with
  | setOptions options => exact .refl hnoted
  | minimise => exact .refl hnoted
  | maximise => exact .refl hnoted
  | addVariable declaration =>
    apply Ends.finalState
    apply ends_forEffect
    rw [Model.addVariable_eq]
    exact .refl hnoted
  | atMost rhs =>
    apply Ends.finalState
    apply ends_forEffect
    apply Ends.bind (Model.addInequality_carries h rhs true)
    intro slack model' hmodel'
    exact hmodel'
  | atLeast rhs =>
    apply Ends.finalState
    apply ends_forEffect
    apply Ends.bind (Model.addInequality_carries h rhs false)
    intro slack model' hmodel'
    exact hmodel'
  | equal rhs => exact (ends_forEffect (Model.equal_carries h rhs)).finalState
  | addTerm reference coefficient index =>
    exact (Model.addTerm_carries h reference coefficient index).finalState
  | setCoefficient reference coefficient index =>
    exact (Model.setCoefficient_carries h reference coefficient index).finalState
  | setRhs reference rhs => exact (Model.setRhs_carries h reference rhs).finalState
  | relax reference weight priority =>
    apply Ends.finalState
    apply ends_forEffect
    cases hpriority : priority.isRequired with
    | true =>
      have hrelax : Model.relax reference weight priority model = .ok none model := by
        unfold Model.relax
        rw [hpriority]
        rfl
      rw [hrelax, noted, hpriority]
      exact .refl h
    | false =>
      rw [Model.relax_eq hpriority, noted, hpriority]
      rw [noted, hpriority] at hnoted
      apply Ends.bind ((Model.forM_carries hnoted
        (List.mem_append_right _ (List.mem_singleton.2 rfl)) reference.slacks
        fun slack model hmodel hmem => Model.relaxInequality_carries hmodel hmem slack).mono
          (fun _ _ hpost => hpost.1) fun _ _ hfailed => hfailed)
      intro _ model' hmodel'
      exact hmodel'
  | removeConstraint reference =>
    exact (Model.forM_carries_all h reference.slacks fun slack _ hmodel =>
      Model.removeInequality_carries hmodel slack).finalState
  | removeVariable index => exact (Model.removeVariable_carries h index).finalState
  | setCost cost index =>
    apply Ends.finalState
    by_cases hindex : index ∈ model.indices
    · rw [noted, if_pos (List.contains_iff_mem.2 hindex)]
      exact Model.setCost_carries h hindex cost
    · have herror : Model.setCost cost index model = .error _ model :=
        bind_of_error (Model.requireVariable_of_not_mem hindex)
      rw [noted, if_neg (mt List.contains_iff_mem.1 hindex), perform, herror]
      exact .refl h
  | solve effort =>
    have hsame : result (.solve effort) model = finalState (Model.solve effort model) :=
      finalState_forEffect ..
    rw [hsame]
    exact Model.solve_carries h effort

end Steps

/-- After every run from the empty model, whatever failed on the way, the model knows its
variables and slacks. -/
theorem isOrderly_after (precision : α) (options : Options α) (operations : List (Operation α)) :
    (after (Model.empty precision options) operations).IsOrderly :=
  preserved_after Model.IsOrderly
    (fun _ operation hmodel => (result_carries hmodel operation).orderly) operations
    (Model.empty_isOrderly precision options)

end Operation

end MixedInteger
