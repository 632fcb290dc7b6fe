import MixedInteger.Proofs.ModelSteps

/-!
# The basis along all runs

Whatever a caller does with a model, in any order and with any arguments, known or
not, the model stays intact: its check passes, the secondary objectives are in order,
the constraints speak of declared variables, and the indices that can be handed out
next are not in use.  The one exception is a removal that has already taken a
constraint or a variable out of the model and then cannot bring it into the basis or
out of it.  The arithmetic plays no part: this holds for every kind of scalar.
-/

namespace MixedInteger

variable {α : Type}

namespace Model

/-- What holds of a model between operations. -/
structure IsIntact (model : Model α) : Prop where
  valid : model.validate = .ok ()
  secondary_size : model.isLoaded = true → ∀ objective ∈ model.tableau.dictionary.secondary,
    objective.reducedCosts.size = model.tableau.dictionary.width
  secondary_ascending : model.isLoaded = true → model.tableau.dictionary.secondary.Pairwise
    fun left right => left.priority.level < right.priority.level
  terms_declared : ∀ constraint ∈ model.constraints.values, ∀ term ∈ constraint.terms,
    term.index ∈ model.indices
  relaxation_declared : ∀ constraint ∈ model.constraints.values,
    ∀ index, constraint.relaxation = some index → index ∈ model.indices
  terms_distinct : ∀ constraint ∈ model.constraints.values,
    (constraint.terms.map Term.index).Nodup
  integers_eq : model.integers =
    model.indices.filter fun index => (model.tableau.lookup? index).any Variable.isInteger
  free_nodup : model.tableau.pool.free.Nodup
  free_lt : ∀ index ∈ model.tableau.pool.free, index < model.tableau.pool.next
  free_unused : ∀ index ∈ model.tableau.pool.free, index ∉ model.indices ∧
    index ∉ model.constraints.keys ∧ model.tableau.lookup? index = none
  /-- No index in use is handed out, neither to a search nor to the caller. -/
  allocate_unused : ∀ index, index = model.tableau.pool.allocate.1 ∨
      index = model.tableau.discardSearch.pool.allocate.1 →
    index ∉ model.indices ∧ index ∉ model.constraints.keys

end Model

/-! ## From sound models -/

namespace Tableau

/-- Leaving a search forgets variables and changes none. -/
theorem lookup?_discardSearch_of_isSome {t : Tableau α} {index : Nat}
    (hindex : (t.discardSearch.lookup? index).isSome) :
    t.discardSearch.lookup? index = t.lookup? index := by
  cases hsnapshot : t.snapshot with
  | none => rw [discardSearch_eq_self hsnapshot]
  | some snapshot =>
    have hrestore : t.discardSearch.lookup? index = _ := lookup?_restore hsnapshot index
    rw [hrestore] at hindex ⊢
    split at hindex
    · rename_i hknown
      rw [if_pos hknown]
    · exact absurd hindex (by simp)

end Tableau

namespace Model

variable {model : Model α}

theorem IsSound.isSome_lookup? (h : model.IsSound) {index : Nat}
    (hindex : index ∈ model.indices ∨ index ∈ model.constraints.keys) :
    (model.tableau.lookup? index).isSome := by
  have hroot := (h.root_fits.known_iff index).2 hindex
  rw [← Tableau.lookup?_discardSearch_of_isSome hroot]
  exact hroot

theorem IsSound.not_mem_of_lookup? (h : model.IsSound) {index : Nat}
    (hindex : model.tableau.lookup? index = none) :
    index ∉ model.indices ∧ index ∉ model.constraints.keys := by
  apply not_or.1
  intro hmem
  have hsome := h.isSome_lookup? hmem
  rw [hindex] at hsome
  exact absurd hsome (by simp)

/-- Sound models pass their check. -/
theorem IsSound.valid (h : model.IsSound) : model.validate = .ok () := by
  cases hloaded : model.isLoaded with
  | false => exact validate_of_not_loaded hloaded
  | true =>
    have hsound := h.present_sound hloaded
    apply (validate_eq_ok_iff hloaded).2
    refine ⟨hsound.validate, ?_, ?_⟩
    · intro index hindex
      exact (hsound.mentions_iff index).2 (h.isSome_lookup? (.inl hindex))
    · intro slack hslack
      exact (hsound.mentions_iff slack).2 (h.isSome_lookup? (.inr hslack))

theorem IsSound.isIntact (h : model.IsSound) : model.IsIntact := by
  have hfits : ∀ constraint ∈ model.constraints.values,
      ∃ slack, constraint.Fits model.indices slack := by
    intro constraint hconstraint
    obtain ⟨entry, hentry, rfl⟩ := List.mem_map.1 hconstraint
    exact ⟨entry.1, h.root_fits.constraint_fits entry hentry⟩
  refine ⟨h.valid, ?_, ?_, ?_, ?_, ?_, ?_, h.present_pool.free_nodup, h.present_pool.free_lt,
    ?_, ?_⟩
  · intro hloaded
    exact (h.present_sound hloaded).consistent.objective_size
  · intro hloaded
    exact (h.present_sound hloaded).consistent.ascending
  · intro constraint hconstraint
    obtain ⟨slack, hslack⟩ := hfits constraint hconstraint
    exact hslack.terms_mem
  · intro constraint hconstraint index hindex
    obtain ⟨slack, hslack⟩ := hfits constraint hconstraint
    exact hslack.relaxation_mem index hindex
  · intro constraint hconstraint
    obtain ⟨slack, hslack⟩ := hfits constraint hconstraint
    exact hslack.terms_nodup
  · refine h.root_fits.integers_eq.trans ?_
    apply List.filter_congr
    intro index hindex
    have hroot := (h.root_fits.known_iff index).2 (.inl hindex)
    change (model.tableau.discardSearch.lookup? index).any _ = _
    rw [Tableau.lookup?_discardSearch_of_isSome hroot]
  · intro index hindex
    have hunknown := h.present_pool.free_unknown index hindex
    obtain ⟨hindices, hkeys⟩ := h.not_mem_of_lookup? hunknown
    exact ⟨hindices, hkeys, hunknown⟩
  · intro index hindex
    cases hindex with
    | inl hpresent =>
      apply h.not_mem_of_lookup?
      rw [hpresent]
      exact h.present_pool.lookup?_allocate
    | inr hroot =>
      rw [hroot]
      exact h.isQuiet.allocate_fresh

end Model

/-! ## Along runs -/

namespace Operation

variable [Scalar α]

/-- An operation is not a solve with rounding cuts and not a removal that gets stuck. -/
def Unstuck (model : Model α) (operation : Operation α) : Prop :=
  (operation.isSolve = true → model.AvoidsCuts) ∧
    (operation.isRemoval = true → ∀ fault model', operation.perform model = .error fault model' →
      fault.cause.isStuck = false)

/-- A removal that was not stuck. -/
theorem sound_of_unstuck {model : Model α} {operation : Operation α}
    (hunstuck : ∀ fault model', operation.perform model = .error fault model' →
      fault.cause.isStuck = false)
    (hends : Ends (operation.perform model) (fun _ => Model.IsSound) Model.SoundUnlessStuck) :
    (operation.result model).IsSound := by
  unfold result
  cases houtcome : operation.perform model with
  | ok result model' =>
    rw [houtcome] at hends
    exact hends
  | error fault model' =>
    rw [houtcome] at hends
    exact hends (hunstuck fault model' houtcome)

/-- Every operation keeps a model sound. -/
theorem result_sound {model : Model α} (h : model.IsSound) {operation : Operation α}
    (hoperation : operation.Unstuck model) : (operation.result model).IsSound := by
  obtain ⟨hcuts, hunstuck⟩ := hoperation
  cases operation with
  | setOptions options =>
    refine ⟨h.present_pool, h.present_sound, ?_⟩
    have hfits := h.root_fits
    exact ⟨hfits.pool, hfits.indices_nodup, hfits.slacks_nodup, hfits.apart, hfits.known_iff,
      hfits.integers_eq, hfits.slack_character, hfits.constraint_fits, hfits.sound⟩
  | minimise => exact Model.setDirection_sound h true
  | maximise => exact Model.setDirection_sound h false
  | addVariable declaration =>
    exact (ends_forEffect (Model.addVariable_sound h declaration)).finalState
  | atMost rhs =>
    apply Ends.finalState
    apply ends_forEffect
    apply Ends.bind (Model.addInequality_sound h rhs true)
    intro slack model' hmodel'
    exact hmodel'
  | atLeast rhs =>
    apply Ends.finalState
    apply ends_forEffect
    apply Ends.bind (Model.addInequality_sound h rhs false)
    intro slack model' hmodel'
    exact hmodel'
  | equal rhs => exact (ends_forEffect (Model.equal_sound h rhs)).finalState
  | addTerm reference coefficient index =>
    exact (Model.addTerm_sound h reference coefficient index).finalState
  | setCoefficient reference coefficient index =>
    exact (Model.setCoefficient_sound h reference coefficient index).finalState
  | setRhs reference rhs => exact (Model.setRhs_sound h reference rhs).finalState
  | relax reference weight priority =>
    exact (ends_forEffect (Model.relax_sound h reference weight priority)).finalState
  | removeConstraint reference =>
    exact sound_of_unstuck (hunstuck rfl) (Model.removeConstraint_sound h reference)
  | removeVariable index =>
    exact sound_of_unstuck (hunstuck rfl) (Model.removeVariable_sound h index)
  | setCost cost index => exact (Model.setCost_sound h cost index).finalState
  | solve effort =>
    have hsame : result (.solve effort) model = finalState (Model.solve effort model) :=
      finalState_forEffect ..
    rw [hsame]
    exact Model.solve_sound h effort ((hcuts rfl).rootCuts_eq_zero h effort)

theorem isSound_after {precision : α} {options : Options α} {operations : List (Operation α)}
    (hrun : Along Unstuck (Model.empty precision options) operations) :
    (after (Model.empty precision options) operations).IsSound :=
  invariant_after Model.IsSound (fun _ _ hmodel hoperation => result_sound hmodel hoperation) hrun
    (Model.empty_isQuiet precision options).isSound

/-- After every run from the empty model, in which no solve made rounding cuts and no
removal got stuck, the model is intact, whether the operations succeeded or not. -/
theorem isIntact_after (precision : α) (options : Options α) (operations : List (Operation α))
    (hrun : Along Unstuck (Model.empty precision options) operations) :
    (after (Model.empty precision options) operations).IsIntact :=
  (isSound_after hrun).isIntact

/-- A variable, a constraint on it, and a solve, after a removal of a variable that is
not there. -/
def sampleRun : List (Operation Rat) :=
  [.removeVariable 7,
    .addVariable ⟨1, none, true, false, .required⟩,
    .atLeast 3,
    .addTerm (.inequality 1) 2 0,
    .solve ⟨8, 0, 8, fun _ => 0⟩,
    .relax (.inequality 1) 5 ⟨2⟩]

theorem sampleRun_unstuck :
    Along Unstuck (Model.empty 1e-9 Options.standard) sampleRun := by
  refine ⟨⟨?_, ?_⟩, ⟨?_, ?_⟩, ⟨?_, ?_⟩, ⟨?_, ?_⟩, ⟨fun _ => .inl rfl, ?_⟩, ⟨?_, ?_⟩, trivial⟩
  case refine_2 =>
    rintro - fault model' ⟨⟩
    rfl
  all_goals exact fun hkind => absurd hkind (by decide)

theorem isIntact_after_sampleRun :
    Along Unstuck (Model.empty 1e-9 Options.standard) sampleRun ∧
      (after (Model.empty 1e-9 Options.standard) sampleRun).IsIntact :=
  ⟨sampleRun_unstuck, isIntact_after 1e-9 Options.standard sampleRun sampleRun_unstuck⟩

end Operation

end MixedInteger
