import MixedInteger.Proofs.Building
import MixedInteger.Proofs.Growth
import MixedInteger.Proofs.Optimality
import MixedInteger.Proofs.OwnRows
import MixedInteger.Proofs.Refinement
import MixedInteger.Proofs.Removals

/-!
# Variables that can change places

Before a constraint is removed or one of its coefficients is changed, its slack is brought into
the basis, and before a variable is removed it is taken out.  Either needs a number other than
zero to pivot on.  Main statement: along every faithful run there is one, so an exchange is
refused only where all numbers of the column, or of the row, are within the precision.

On a loaded model this follows from what its dictionary denotes.  The variables determine the
slacks, so a slack cannot be moved on its own: its column has a number other than zero.  The
variables themselves may take any values, so none of them is fixed by its row: the row has such
a number as well.  A model that changes its direction keeps its old dictionary until the next
solve.  Until then indices are given back and handed out again, and what keeps the statement
true is that an index that was given back has no place.
-/

namespace MixedInteger

/-! ## Solutions of a model -/

namespace Model

variable {model : Model Rat} {t : Tableau Rat} {x y : Nat → Rat}

/-- The values that the slacks take for given values of the variables. -/
def withSlacks (model : Model Rat) (x : Nat → Rat) (index : Nat) : Rat :=
  match model.constraint? index with
  | some constraint => constraint.sign * constraint.rhs - constraint.sign * constraint.valueAt x
  | none => x index

theorem withSlacks_of_mem (h : model.Fits t) {index : Nat} (hindex : index ∈ model.indices)
    (x : Nat → Rat) : model.withSlacks x index = x index := by
  cases hsome : model.constraint? index with
  | none => rw [withSlacks, hsome]
  | some constraint =>
    exact absurd (OrderedMap.mem_keys_of_get? hsome) (h.apart index hindex)

/-- The variables may take any values. -/
theorem IsSound.solves_withSlacks (h : model.IsSound) (x : Nat → Rat) :
    model.Solves (model.withSlacks x) := by
  intro constraint hconstraint
  have hfound : model.constraint? constraint.slack = some constraint :=
    h.isQuiet.constraint?_of_mem hconstraint
  have hvalue : constraint.valueAt (model.withSlacks x) = constraint.valueAt x :=
    h.root_fits.valueAt_congr hconstraint fun _ hindex => withSlacks_of_mem h.root_fits hindex x
  rw [Constraint.Holds, hvalue, withSlacks, hfound]
  ring

/-- The variables determine the slacks. -/
theorem Fits.slack_eq_of_solves (h : model.Fits t) (hx : model.Solves x) (hy : model.Solves y)
    (hxy : ∀ index ∈ model.indices, y index = x index) {slack : Nat}
    (hslack : slack ∈ model.constraints.keys) : y slack = x slack := by
  obtain ⟨entry, hentry, rfl⟩ := List.mem_map.1 hslack
  have hconstraint : entry.2 ∈ model.constraints.values := List.mem_map_of_mem hentry
  have hvalue := h.valueAt_congr hconstraint hxy
  have hx' := hx _ hconstraint
  have hy' := hy _ hconstraint
  rw [Constraint.Holds, (h.constraint_fits entry hentry).slack_eq] at hx' hy'
  rw [hvalue, ← hx'] at hy'
  exact add_left_cancel hy'

end Model

/-! ## Rows and columns of a dictionary that denotes a model -/

namespace Dictionary

variable {d : Dictionary Rat}

/-- If the variable has a column, it has a number other than zero in it. -/
def HasFilledColumn (d : Dictionary Rat) (index : Nat) : Prop :=
  ∀ c, d.column? index = some c → ∃ r ∈ d.rows, d.entry r c ≠ 0

/-- If the variable has a row, it has a number other than zero in it. -/
def HasFilledRow (d : Dictionary Rat) (index : Nat) : Prop :=
  ∀ r, d.row? index = some r → ∃ c ∈ d.columns, d.entry r c ≠ 0

/-- Along a column of zeros only its own variable moves. -/
theorem moved_eq_valueOf {c : Nat} (hzero : ∀ r ∈ d.rows, d.entry r c = 0)
    (h : d.IsConsistent) {index : Nat} (hindex : d.column? index ≠ some c) (step : Rat) :
    d.moved c step index = d.valueOf index := by
  cases hrow : d.row? index with
  | some r =>
    have hr := (h.row?_eq_some_iff.1 hrow).1
    rw [moved, valueOf, hrow]
    simp only [hzero r hr, zero_mul, sub_zero]
  | none =>
    rw [moved, valueOf, hrow]
    simp only [if_neg hindex]

/-- A row of zeros fixes its variable. -/
theorem rowValue_of_zeros {row : Array Rat} (hzero : ∀ c ∈ d.columns, entryOf row c = 0)
    (x : Nat → Rat) : d.rowValue row x = entryOf row 0 := by
  rw [rowValue, sub_eq_self]
  apply Finset.sum_eq_zero
  intro c hc
  rw [hzero c (mem_columns_iff_mem_Ico.2 hc), zero_mul]

variable {model : Model Rat}

theorem Denotes.hasFilledColumn (h : d.Denotes model) (hsound : model.IsSound)
    (hconsistent : d.IsConsistent) {slack : Nat} (hslack : slack ∈ model.constraints.keys) :
    d.HasFilledColumn slack := by
  intro c hcolumn
  by_contra hnone
  have hzero : ∀ r ∈ d.rows, d.entry r c = 0 := by simpa using hnone
  have hnamed := hconsistent.isNamed
  obtain ⟨hc, hname⟩ := hconsistent.column?_eq_some_iff.1 hcolumn
  -- The basic solution and the one in which the slack alone is 1 solve the model.
  have hbasic := (h.satisfies_iff _).1 (satisfies_valueOf hnamed)
  have hmoved := (h.satisfies_iff _).1 (satisfies_moved hnamed hc 1)
  have hagree : ∀ index ∈ model.indices, d.moved c 1 index = d.valueOf index := by
    intro index hindex
    apply moved_eq_valueOf hzero hconsistent
    intro hplace
    obtain ⟨-, hname'⟩ := hconsistent.column?_eq_some_iff.1 hplace
    rw [hname, Option.some.injEq] at hname'
    rw [← hname'] at hindex
    exact hsound.root_fits.apart slack hindex hslack
  have hsame := hsound.root_fits.slack_eq_of_solves hbasic hmoved hagree hslack
  rw [moved_nonBasic hnamed hc hname, if_pos rfl, valueOf, hnamed.row?_eq_none hc hname] at hsame
  exact absurd hsame one_ne_zero

theorem Denotes.hasFilledRow (h : d.Denotes model) (hsound : model.IsSound)
    (hconsistent : d.IsConsistent) {index : Nat} (hindex : index ∈ model.indices) :
    d.HasFilledRow index := by
  intro r hrow
  by_contra hnone
  have hzero : ∀ c ∈ d.columns, d.entry r c = 0 := by simpa using hnone
  obtain ⟨hr, hname⟩ := hconsistent.row?_eq_some_iff.1 hrow
  -- The variable would have one value in all solutions, but it may have any.
  let x : Nat → Rat := fun _ => d.entry r 0 + 1
  have hsatisfies := (h.satisfies_iff _).2 (hsound.solves_withSlacks x)
  have hvalue := hsatisfies r hr index hname
  rw [rowValue_of_zeros hzero, Model.withSlacks_of_mem hsound.root_fits hindex] at hvalue
  exact absurd hvalue (by simp [x, entry])

end Dictionary

/-! ## Tableaus whose variables can change places -/

namespace Tableau

/-- Only indices that are handed out have a place; the column of a slack and the row of any
other variable have a number other than zero. -/
structure IsExchangeable (t : Tableau Rat) : Prop where
  handedOut : ∀ index, t.dictionary.Mentions index → index < t.pool.next ∧ index ∉ t.pool.free
  slack_column : ∀ index, t.isSlack? index = some true → t.dictionary.HasFilledColumn index
  variable_row : ∀ index, t.isSlack? index = some false → t.dictionary.HasFilledRow index

variable {t t' : Tableau Rat} {index : Nat}

theorem filled_of_not_mentions {d : Dictionary Rat} (hindex : ¬ d.Mentions index) :
    d.HasFilledColumn index ∧ d.HasFilledRow index := by
  rw [Dictionary.Mentions, not_or, Option.not_isSome_iff_eq_none,
    Option.not_isSome_iff_eq_none] at hindex
  constructor
  · intro c hcolumn
    rw [hindex.2] at hcolumn
    cases hcolumn
  · intro r hrow
    rw [hindex.1] at hrow
    cases hrow

/-- An index that is about to be handed out has no place. -/
theorem IsExchangeable.allocate_unplaced (h : t.IsExchangeable) :
    ¬ t.dictionary.Mentions t.pool.allocate.1 := by
  intro hmentions
  obtain ⟨hlt, hfree⟩ := h.handedOut _ hmentions
  cases hcase : t.pool.free with
  | nil => simp [IndexPool.allocate, hcase] at hlt
  | cons first rest => simp [IndexPool.allocate, hcase] at hfree

theorem IsExchangeable.register (h : t.IsExchangeable) {make : Nat → Variable Rat}
    (hmake : ∀ index, (make index).index = index) : (t.register make).2.IsExchangeable := by
  have hold {index : Nat} (hne : index ≠ t.pool.allocate.1) :
      (t.register make).2.isSlack? index = t.isSlack? index := by
    rw [isSlack?, lookup?_register (hmake _), if_neg hne, isSlack?]
  refine ⟨?_, ?_, ?_⟩
  · intro index hmentions
    obtain ⟨hlt, hfree⟩ := h.handedOut index hmentions
    change index < t.pool.allocate.2.next ∧ index ∉ t.pool.allocate.2.free
    cases hcase : t.pool.free with
    | nil => simpa [IndexPool.allocate, hcase] using Nat.lt_succ_of_lt hlt
    | cons first rest =>
      rw [hcase, List.mem_cons, not_or] at hfree
      simpa [IndexPool.allocate, hcase] using ⟨hlt, hfree.2⟩
  · intro index hkind
    by_cases hnew : index = t.pool.allocate.1
    · rw [hnew]
      exact (filled_of_not_mentions h.allocate_unplaced).1
    · exact h.slack_column index ((hold hnew).symm.trans hkind)
  · intro index hkind
    by_cases hnew : index = t.pool.allocate.1
    · rw [hnew]
      exact (filled_of_not_mentions h.allocate_unplaced).2
    · exact h.variable_row index ((hold hnew).symm.trans hkind)

theorem IsExchangeable.release (h : t.IsExchangeable) (index : Nat) :
    (t.release index).IsExchangeable := by
  have hrow (other : Nat) : (t.release index).dictionary.row? other =
      if other = index then none else t.dictionary.row? other := Places.position_clear ..
  have hcolumn (other : Nat) : (t.release index).dictionary.column? other =
      if other = index then none else t.dictionary.column? other := Places.position_clear ..
  have hkind {other : Nat} {kind : Bool} (hother : (t.release index).isSlack? other = some kind) :
      other ≠ index ∧ t.isSlack? other = some kind := by
    rw [isSlack?, lookup?_release] at hother
    split at hother
    · cases hother
    · exact ⟨‹_›, hother⟩
  refine ⟨?_, ?_, ?_⟩
  · intro other hmentions
    rw [Dictionary.Mentions, hrow, hcolumn] at hmentions
    by_cases hother : other = index
    · simp [hother] at hmentions
    · rw [if_neg hother, if_neg hother] at hmentions
      obtain ⟨hlt, hfree⟩ := h.handedOut other hmentions
      exact ⟨hlt, by simpa [Tableau.release, IndexPool.release, hother] using hfree⟩
  · intro other hother c hplace
    obtain ⟨hne, hother⟩ := hkind hother
    rw [hcolumn, if_neg hne] at hplace
    exact h.slack_column other hother c hplace
  · intro other hother r hplace
    obtain ⟨hne, hother⟩ := hkind hother
    rw [hrow, if_neg hne] at hplace
    exact h.variable_row other hother r hplace

theorem IsExchangeable.of_sameView (h : t.IsExchangeable)
    (hview : SameView Variable.character t t') : t'.IsExchangeable := by
  refine ⟨?_, ?_, ?_⟩
  · rw [hview.dictionary, hview.pool]
    exact h.handedOut
  · simp only [hview.isSlack?, hview.dictionary]
    exact h.slack_column
  · simp only [hview.isSlack?, hview.dictionary]
    exact h.variable_row

theorem survivesNotes_isExchangeable : SurvivesNotes IsExchangeable :=
  ⟨fun hmake h => h.register hmake, fun index h => h.release index,
    fun hview h => h.of_sameView hview⟩

theorem blank_isExchangeable (precision : Rat) : (blank precision).IsExchangeable := by
  have hplace (index : Nat) : ¬ (blank precision).dictionary.Mentions index := by
    rintro (hrow | hcolumn)
    · cases hrow
    · cases hcolumn
  exact ⟨fun index hindex => absurd hindex (hplace index),
    fun index _ => (filled_of_not_mentions (hplace index)).1,
    fun index _ => (filled_of_not_mentions (hplace index)).2⟩

end Tableau

/-! ## Along runs -/

namespace Model

variable {model : Model Rat} {precision : Rat}

/-- A loaded model in step with its tableau. -/
theorem IsInStep.isExchangeable (h : model.IsInStep precision) (horderly : model.IsOrderly)
    (hloaded : model.isLoaded = true) : model.root.IsExchangeable := by
  have hsettled : model.IsSettled := ⟨h.1, horderly, hloaded⟩
  have hsound := h.1.root_fits.sound hloaded
  have hdenotes : model.root.dictionary.Denotes model := h.denotes hloaded
  refine ⟨?_, ?_, ?_⟩
  · intro index hmentions
    have hknown := (hsound.mentions_iff index).1 hmentions
    refine ⟨hsound.lt_next hknown, ?_⟩
    intro hfree
    rw [hsound.free_unknown index hfree] at hknown
    cases hknown
  · intro index hkind c hcolumn
    obtain ⟨hc, hlabel⟩ := hsound.consistent.column?_eq_some_iff.1 hcolumn
    have hslack := (hsettled.slack_iff index).2 ⟨.inr ⟨c, hc, hlabel⟩, hkind⟩
    exact hdenotes.hasFilledColumn h.1 hsound.consistent hslack c hcolumn
  · intro index hkind r hrow
    obtain ⟨hr, hlabel⟩ := hsound.consistent.row?_eq_some_iff.1 hrow
    have hvariable := (hsettled.variable_iff index).2 ⟨.inl ⟨r, hr, hlabel⟩, hkind⟩
    exact hdenotes.hasFilledRow h.1 hsound.consistent hvariable r hrow

/-- What faithful operations keep: the model is in step with its tableau, and where the tableau
has to be built, the variables of the old one can change places. -/
structure AllowsExchanges (precision : Rat) (model : Model Rat) : Prop where
  inStep : model.IsInStep precision
  orderly : model.IsOrderly
  unbuilt : model.isLoaded = false → model.IsUnbuilt Tableau.IsExchangeable

theorem AllowsExchanges.root (h : model.AllowsExchanges precision) :
    model.root.IsExchangeable := by
  cases hloaded : model.isLoaded with
  | true => exact h.inStep.isExchangeable h.orderly hloaded
  | false =>
    rw [root_eq (h.unbuilt hloaded).snapshot_eq]
    exact (h.unbuilt hloaded).tableau_kept

/-- A variable of the model has a place, unless the tableau has to be built. -/
theorem AllowsExchanges.isLoaded_eq_false (h : model.AllowsExchanges precision) {index : Nat}
    (hindex : index ∈ model.indices ∨ index ∈ model.constraints.keys)
    (hplace : ¬ model.root.dictionary.Mentions index) : model.isLoaded = false := by
  cases hloaded : model.isLoaded with
  | true => exact absurd (h.inStep.1.root_fits.mentions hloaded hindex) hplace
  | false => rfl

theorem AllowsExchanges.abs_le (h : model.AllowsExchanges precision) {value : Rat}
    (hvalue : ¬ model.root.precision < Scalar.abs value) : |value| ≤ precision := by
  rw [scalar_abs_eq, not_lt] at hvalue
  have hprecision : model.root.precision = model.tableau.precision :=
    Tableau.precision_discardSearch model.tableau
  rwa [hprecision, h.inStep.2.precision_eq] at hvalue

theorem isLoaded_solve (h : model.IsSound) (effort : Effort) :
    (finalState (solve effort model)).isLoaded = true := by
  obtain ⟨hsolve, -, hloaded, -⟩ := solve_eq h effort
  rw [hsolve, finalState_onTableau]
  exact hloaded

end Model

namespace Operation

variable {model : Model Rat} {precision : Rat} {operation : Operation Rat}

theorem result_allowsExchanges (h : model.AllowsExchanges precision)
    (hoperation : Faithful model operation) :
    (operation.result model).AllowsExchanges precision := by
  refine ⟨⟨result_sound h.inStep.1 hoperation.unstuck, result_current h.inStep hoperation⟩,
    (result_carries h.orderly operation).orderly, ?_⟩
  intro hunloaded
  cases hsolve : operation.isSolve with
  | true =>
    cases operation with
    | solve effort =>
      have hsame : result (.solve effort) model = finalState (Model.solve effort model) :=
        finalState_forEffect ..
      rw [hsame, Model.isLoaded_solve h.inStep.1] at hunloaded
      cases hunloaded
    | _ => cases hsolve
  | false =>
    cases hloaded : model.isLoaded with
    | false =>
      exact result_unbuilt Tableau.survivesNotes_isExchangeable (h.unbuilt hloaded) hsolve
    | true =>
      obtain ⟨model', hok⟩ := hoperation.succeeds hsolve
      have hresult : operation.result model = model' := by rw [result, hok]; rfl
      rw [hresult] at hunloaded ⊢
      -- Nothing but another direction calls for a new tableau.
      obtain hedit | ⟨options, rfl⟩ | ⟨minimises, rfl⟩ := edited_of_ok h.inStep.1 hsolve hok
      · rw [hedit.isLoaded, hloaded] at hunloaded
        cases hunloaded
      · exact absurd (hloaded.symm.trans hunloaded) (by simp)
      · by_cases hsame : model.minimises = minimises
        · rw [Model.setDirection, if_pos (by simpa using hsame), hloaded] at hunloaded
          cases hunloaded
        · exact Model.setDirection_unbuilt_of_ne Tableau.survivesNotes_isExchangeable hsame h.root

theorem allowsExchanges_after (hprecision : 0 ≤ precision) {options : Options Rat}
    {operations : List (Operation Rat)}
    (hrun : Along Faithful (Model.empty precision options) operations) :
    (after (Model.empty precision options) operations).AllowsExchanges precision := by
  apply invariant_after (Model.AllowsExchanges precision) _ hrun
  · have hempty : Along Faithful (Model.empty precision options) [] := trivial
    refine ⟨isInStep_after hprecision hempty, Model.empty_isOrderly precision options, ?_⟩
    intro _
    exact ⟨rfl, Tableau.blank_isExchangeable precision, rfl⟩
  · intro model operation hmodel hoperation
    exact result_allowsExchanges hmodel hoperation

/-- After every faithful run from the empty model, once a pending search is left, a slack that
is not basic has a number other than zero in its column, and a basic variable has one in its
row.  A slack that cannot enter the basis, or a variable that cannot leave it, is held back by
the precision alone, unless it has no place in a tableau that has yet to be built. -/
theorem exchanges_after (precision : Rat) (hprecision : 0 ≤ precision) (options : Options Rat)
    (operations : List (Operation Rat))
    (hrun : Along Faithful (Model.empty precision options) operations) (model : Model Rat)
    (hmodel : model = after (Model.empty precision options) operations) (t : Tableau Rat)
    (ht : t = model.tableau.discardSearch) :
    (∀ slack ∈ model.constraints.keys,
      t.dictionary.HasFilledColumn slack ∧
      ∀ fault t', Tableau.enterBasis slack t = .error fault t' →
        (fault = (Cause.cannotEnter slack : Fault) ∧ ∃ c, t.dictionary.column? slack = some c ∧
          ∀ r ∈ t.dictionary.rows, |t.dictionary.entry r c| ≤ precision) ∨
        model.isLoaded = false ∧ ¬ t.dictionary.Mentions slack) ∧
    ∀ index ∈ model.indices,
      t.dictionary.HasFilledRow index ∧
      ∀ fault t', Tableau.leaveBasis index t = .error fault t' →
        (fault = (Cause.cannotLeave index : Fault) ∧ ∃ r, t.dictionary.row? index = some r ∧
          ∀ c ∈ t.dictionary.columns, |t.dictionary.entry r c| ≤ precision) ∨
        model.isLoaded = false ∧ ¬ t.dictionary.Mentions index := by
  have hallows : model.AllowsExchanges precision := by
    rw [hmodel]
    exact allowsExchanges_after hprecision hrun
  have hroot : t = model.root := ht
  rw [hroot]
  constructor
  · intro slack hslack
    refine ⟨hallows.root.slack_column slack (hallows.orderly.slack_known slack hslack), ?_⟩
    intro fault t' herror
    rcases Tableau.enterBasis_eq_error herror with ⟨hplace, -⟩ | ⟨hfault, c, hcolumn, hsmall⟩
    · exact .inr ⟨hallows.isLoaded_eq_false (.inr hslack) hplace, hplace⟩
    · exact .inl ⟨hfault, c, hcolumn, fun r hr => hallows.abs_le (hsmall r hr)⟩
  · intro index hindex
    refine ⟨hallows.root.variable_row index (hallows.orderly.variable_known index hindex), ?_⟩
    intro fault t' herror
    rcases Tableau.leaveBasis_eq_error herror with ⟨hplace, -⟩ | ⟨hfault, r, hrow, hsmall⟩
    · exact .inr ⟨hallows.isLoaded_eq_false (.inl hindex) hplace, hplace⟩
    · exact .inl ⟨hfault, r, hrow, fun c hc => hallows.abs_le (hsmall c hc)⟩

theorem exchanges_after_steepRun :
    ∃ t fault t', Along Faithful (Model.empty 1e-9 Options.standard) steepRun ∧
      t = (after (Model.empty 1e-9 Options.standard) steepRun).tableau.discardSearch ∧
      t.dictionary.HasFilledColumn 1 ∧ t.dictionary.row? 0 = some 1 ∧
      t.dictionary.HasFilledRow 0 ∧ Tableau.enterBasis 1 t = .error fault t' ∧
      fault = (Cause.cannotEnter 1 : Fault) ∧ ∃ c, t.dictionary.column? 1 = some c ∧
        ∀ r ∈ t.dictionary.rows, |t.dictionary.entry r c| ≤ 1e-9 := by
  have hrun : Along Faithful (Model.empty 1e-9 Options.standard) steepRun := by decide +kernel
  have hends : Ends (Tableau.enterBasis 1
      (after (Model.empty 1e-9 Options.standard) steepRun).tableau.discardSearch)
        (fun _ _ => False) fun _ _ => True := by
    decide +kernel
  obtain ⟨hslacks, hvariables⟩ := exchanges_after 1e-9 (by decide +kernel) Options.standard
    steepRun hrun _ rfl _ rfl
  obtain ⟨hcolumn, hrefused⟩ := hslacks 1 (by decide +kernel)
  obtain ⟨hrow, -⟩ := hvariables 0 (by decide +kernel)
  have hloaded : ¬ (after (Model.empty 1e-9 Options.standard) steepRun).isLoaded = false := by
    decide +kernel
  cases herror : Tableau.enterBasis 1
      (after (Model.empty 1e-9 Options.standard) steepRun).tableau.discardSearch with
  | ok r t' =>
    rw [herror] at hends
    exact hends.elim
  | error fault t' =>
    refine ⟨_, fault, t', hrun, rfl, hcolumn, by decide +kernel, hrow, herror, ?_⟩
    exact (hrefused fault t' herror).resolve_right fun hmissing => hloaded hmissing.1

end Operation

end MixedInteger
