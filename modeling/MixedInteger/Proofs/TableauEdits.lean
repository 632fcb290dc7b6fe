import MixedInteger.Proofs.SearchState

/-!
# What the edits of a tableau do

Each edit of a sound tableau outside a search either fails in a stated way or leaves a
stated dictionary behind.  An edit that needs a variable in the basis, or out of it,
first makes at most one pivot; `enteringPivots` and `leavingPivots` list it, in the
form in which the pivots of a solve are listed.
-/

namespace MixedInteger

/-- Moves the right-hand sides of all rows along a column. -/
def Dictionary.shiftRhs {α : Type} [Scalar α] (d : Dictionary α) (column : Nat) (difference : α) :
    Dictionary α :=
  { d with
    matrix := d.matrix.map (Tableau.shiftAlong column difference)
    secondary := d.secondary.map fun objective =>
      { objective with
        reducedCosts := Tableau.shiftAlong column difference objective.reducedCosts } }

namespace Tableau

variable {α : Type} [Scalar α]

/-- The pivot that makes a variable basic, if one is needed and possible. -/
def enteringPivots (t : Tableau α) (index : Nat) : List (PivotEvent α) :=
  match t.dictionary.row? index, t.dictionary.column? index with
  | none, some c =>
    match t.dictionary.rows.find? fun r => t.precision < Scalar.abs (t.dictionary.entry r c) with
    | some r => [⟨t, r, c⟩]
    | none => []
  | _, _ => []

def leavingPivots (t : Tableau α) (index : Nat) : List (PivotEvent α) :=
  match t.dictionary.column? index, t.dictionary.row? index with
  | none, some r =>
    match t.dictionary.columns.find? fun c =>
        t.precision < Scalar.abs (t.dictionary.entry r c) with
    | some c => [⟨t, r, c⟩]
    | none => []
  | _, _ => []

theorem entry_of_mem_enteringPivots {t : Tableau α} {index : Nat} {event : PivotEvent α}
    (hevent : event ∈ t.enteringPivots index) :
    event.before = t ∧
      t.precision < Scalar.abs (t.dictionary.entry event.row event.column) := by
  unfold enteringPivots at hevent
  split at hevent
  · split at hevent
    · rename_i hfind
      rw [List.mem_singleton] at hevent
      rw [hevent]
      exact ⟨rfl, by simpa using List.find?_some hfind⟩
    · exact absurd hevent List.not_mem_nil
  · exact absurd hevent List.not_mem_nil

theorem entry_of_mem_leavingPivots {t : Tableau α} {index : Nat} {event : PivotEvent α}
    (hevent : event ∈ t.leavingPivots index) :
    event.before = t ∧
      t.precision < Scalar.abs (t.dictionary.entry event.row event.column) := by
  unfold leavingPivots at hevent
  split at hevent
  · split at hevent
    · rename_i hfind
      rw [List.mem_singleton] at hevent
      rw [hevent]
      exact ⟨rfl, by simpa using List.find?_some hfind⟩
    · exact absurd hevent List.not_mem_nil
  · exact absurd hevent List.not_mem_nil

/-! ## Entering and leaving the basis -/

section Basis

variable {allowed : Dictionary α → Nat → Nat → Prop} {t : Tableau α} {index : Nat}

/-- Bringing a variable into the basis changes nothing or makes the listed pivot. -/
theorem enterBasis_cases (h : t.dictionary.IsConsistent) (hindex : t.dictionary.Mentions index)
    (hpivots : ∀ event ∈ t.enteringPivots index,
      allowed event.before.dictionary event.row event.column) :
    enterBasis index t = .error (Cause.cannotEnter index : Fault) t ∨
      ∃ r t', enterBasis index t = .ok r t' ∧ OnlyPivoted allowed t t' ∧
        t'.dictionary.row? index = some r := by
  unfold enteringPivots at hpivots
  simp only [enterBasis, bind, EStateM.bind, run_get]
  cases hrow : t.dictionary.row? index with
  | some r => exact .inr ⟨r, t, rfl, ⟨SameFrame.refl t, .refl _⟩, hrow⟩
  | none =>
    obtain ⟨c, hcolumn⟩ : ∃ c, t.dictionary.column? index = some c := by
      rw [Dictionary.Mentions, hrow] at hindex
      simpa [Option.isSome_iff_exists] using hindex
    simp only [hrow, hcolumn] at hpivots ⊢
    cases hfind : t.dictionary.rows.find? fun r =>
        t.precision < Scalar.abs (t.dictionary.entry r c) with
    | none => exact .inl rfl
    | some r =>
      rw [hfind] at hpivots
      obtain ⟨hc, hname⟩ := h.column?_eq_some_iff.1 hcolumn
      have hr : r ∈ t.dictionary.rows := List.mem_of_find?_eq_some hfind
      obtain ⟨leaving, hleaving⟩ := h.isNamed.exists_basicAt hr
      have hne := h.isNamed.basicAt_ne_nonBasicAt hr hc hleaving hname
      have hplace : (t.dictionary.pivot r c).row? index = some r := by
        refine (Dictionary.row?_exchange hleaving hname index).trans ?_
        rw [if_neg hne.symm, if_pos rfl]
      have hallowed : allowed t.dictionary r c := hpivots ⟨t, r, c⟩ (List.mem_singleton.2 rfl)
      exact .inr ⟨r, t.pivot r c, rfl, ⟨sameFrame_pivot t r c, .step hr hc hallowed (.refl _)⟩,
        hplace⟩

/-- Taking a variable out of the basis changes nothing or makes the listed pivot. -/
theorem leaveBasis_cases (h : t.dictionary.IsConsistent) (hindex : t.dictionary.Mentions index)
    (hpivots : ∀ event ∈ t.leavingPivots index,
      allowed event.before.dictionary event.row event.column) :
    leaveBasis index t = .error (Cause.cannotLeave index : Fault) t ∨
      ∃ c t', leaveBasis index t = .ok c t' ∧ OnlyPivoted allowed t t' ∧
        t'.dictionary.column? index = some c := by
  unfold leavingPivots at hpivots
  simp only [leaveBasis, bind, EStateM.bind, run_get]
  cases hcolumn : t.dictionary.column? index with
  | some c => exact .inr ⟨c, t, rfl, ⟨SameFrame.refl t, .refl _⟩, hcolumn⟩
  | none =>
    obtain ⟨r, hrow⟩ : ∃ r, t.dictionary.row? index = some r := by
      rw [Dictionary.Mentions, hcolumn] at hindex
      simpa [Option.isSome_iff_exists] using hindex
    simp only [hrow, hcolumn] at hpivots ⊢
    cases hfind : t.dictionary.columns.find? fun c =>
        t.precision < Scalar.abs (t.dictionary.entry r c) with
    | none => exact .inl rfl
    | some c =>
      rw [hfind] at hpivots
      obtain ⟨hr, hname⟩ := h.row?_eq_some_iff.1 hrow
      have hc : c ∈ t.dictionary.columns := List.mem_of_find?_eq_some hfind
      obtain ⟨entering, hentering⟩ := h.isNamed.exists_nonBasicAt hc
      have hplace : (t.dictionary.pivot r c).column? index = some c := by
        refine (Dictionary.column?_exchange hname hentering index).trans ?_
        rw [if_pos rfl]
      have hallowed : allowed t.dictionary r c := hpivots ⟨t, r, c⟩ (List.mem_singleton.2 rfl)
      exact .inr ⟨c, t.pivot r c, rfl, ⟨sameFrame_pivot t r c, .step hr hc hallowed (.refl _)⟩,
        hplace⟩

end Basis

/-! ## Edits that keep the variables -/

omit [Scalar α] in
/-- Outside a search there is nothing to leave. -/
theorem modify_discardSearch {t : Tableau α} (hquiet : t.snapshot = none) :
    (modify Tableau.discardSearch : Action α PUnit) t = .ok ⟨⟩ t := by
  have hmodify : (modify Tableau.discardSearch : Action α PUnit) t = .ok ⟨⟩ t.discardSearch := rfl
  rw [hmodify, discardSearch_eq_self hquiet]

section Keeping

variable {t : Tableau α} {slack index : Nat}

omit [Scalar α] in
/-- A sound tableau with another consistent dictionary over the same places. -/
theorem IsSound.modifyDictionary {change : Dictionary α → Dictionary α} (h : t.IsSound)
    (hconsistent : (change t.dictionary).IsConsistent)
    (hrows : (change t.dictionary).rowOf = t.dictionary.rowOf)
    (hcolumns : (change t.dictionary).columnOf = t.dictionary.columnOf) :
    (t.modifyDictionary change).IsSound := by
  have hrows' : (t.modifyDictionary change).dictionary.rowOf = t.dictionary.rowOf := hrows
  have hcolumns' : (t.modifyDictionary change).dictionary.columnOf = t.dictionary.columnOf :=
    hcolumns
  refine h.of_dictionary hconsistent ?_ rfl rfl
  intro index
  simp only [Dictionary.Mentions, Dictionary.row?, Dictionary.column?, hrows', hcolumns']

/-- Changing a right-hand side moves one entry if the slack is basic, and all
right-hand sides along its column otherwise. -/
theorem changeRhs_cases (hquiet : t.snapshot = none)
    (hslack : t.dictionary.Mentions slack) (isUpperBound : Bool) (difference : α) :
    (∃ r, t.dictionary.row? slack = some r ∧
      changeRhs slack isUpperBound difference t = .ok () (t.modifyDictionary fun d =>
        d.modifyRow r fun row => Dictionary.addAt row 0 (orientBound isUpperBound difference))) ∨
      ∃ c, t.dictionary.column? slack = some c ∧
        changeRhs slack isUpperBound difference t = .ok () (t.modifyDictionary fun d =>
          d.shiftRhs c (orientBound isUpperBound difference)) := by
  have hdiscard := discardSearch_eq_self hquiet
  simp only [changeRhs, bind, EStateM.bind, run_modify, run_get, hdiscard]
  cases hrow : t.dictionary.row? slack with
  | some r => exact .inl ⟨r, rfl, rfl⟩
  | none =>
    obtain ⟨c, hcolumn⟩ : ∃ c, t.dictionary.column? slack = some c := by
      rw [Dictionary.Mentions, hrow] at hslack
      simpa [Option.isSome_iff_exists] using hslack
    simp only [hcolumn]
    exact .inr ⟨c, rfl, rfl⟩

theorem changeRhs_sound (h : t.IsSound) (hquiet : t.snapshot = none)
    (hslack : t.dictionary.Mentions slack) (isUpperBound : Bool) (difference : α) :
    ∃ t', changeRhs slack isUpperBound difference t = .ok () t' ∧ t'.IsSound ∧
      SameFrame t t' := by
  rcases changeRhs_cases hquiet hslack isUpperBound difference with
    ⟨r, -, hchange⟩ | ⟨c, -, hchange⟩
  · refine ⟨_, hchange, ?_, ⟨rfl, rfl, rfl, rfl, rfl⟩⟩
    refine h.modifyDictionary ?_ rfl rfl
    refine h.consistent.modifyRow r ?_
    intro row hrow
    simpa using hrow
  · refine ⟨_, hchange, ?_, ⟨rfl, rfl, rfl, rfl, rfl⟩⟩
    refine h.modifyDictionary ?_ rfl rfl
    refine h.consistent.mapRows ?_
    intro row hrow
    simpa using hrow

/-- Changing a coefficient fails if the slack cannot enter the basis; else it rewrites
the row of the slack after the pivot that brought it in. -/
theorem changeCoefficient_cases (allowed : Dictionary α → Nat → Nat → Prop) (h : t.IsSound)
    (hquiet : t.snapshot = none)
    (hslack : t.dictionary.Mentions slack) (hindex : t.dictionary.Mentions index)
    (hne : slack ≠ index) (isUpperBound : Bool) (difference : α)
    (hpivots : ∀ event ∈ t.enteringPivots slack,
      allowed event.before.dictionary event.row event.column) :
    changeCoefficient slack isUpperBound index difference t =
        .error (Cause.cannotEnter slack : Fault) t ∨
      ∃ r middle row, OnlyPivoted allowed t middle ∧ middle.dictionary.row? slack = some r ∧
        addToRow? middle.dictionary index (orientBound isUpperBound difference)
          (middle.dictionary.row r) = some row ∧ row.size = (middle.dictionary.row r).size ∧
        changeCoefficient slack isUpperBound index difference t =
          .ok () (middle.modifyDictionary fun d => d.modifyRow r fun _ => row) := by
  have hbeq : (slack == index) = false := by simpa using hne
  unfold changeCoefficient
  rw [hbeq]
  rcases enterBasis_cases h.consistent hslack hpivots with herror | ⟨r, middle, hok, hrun, hrow⟩
  · left
    exact (bind_of_ok (modify_discardSearch hquiet)).trans (bind_of_error herror)
  · right
    have hmentions : middle.dictionary.Mentions index :=
      (hrun.2.mentions h.consistent index).2 hindex
    obtain ⟨row, hadd, hsize⟩ := addToRow?_of_mentions hmentions
      (orientBound isUpperBound difference) (middle.dictionary.row r)
    refine ⟨r, middle, row, hrun, hrow, hadd, hsize, ?_⟩
    apply (bind_of_ok (modify_discardSearch hquiet)).trans
    rw [bind_of_ok hok]
    simp only [bind, EStateM.bind, run_get, hadd]
    rfl

theorem changeCoefficient_sound (h : t.IsSound) (hquiet : t.snapshot = none)
    (hslack : t.dictionary.Mentions slack) (hindex : t.dictionary.Mentions index)
    (hne : slack ≠ index) (isUpperBound : Bool) (difference : α) :
    Ends (changeCoefficient slack isUpperBound index difference t)
      (fun _ t' => t'.IsSound ∧ SameFrame t t') (fun _ t' => t' = t) := by
  rcases changeCoefficient_cases (fun _ _ _ => True) h hquiet hslack hindex hne
    isUpperBound difference (fun _ _ => trivial) with
    herror | ⟨r, middle, row, hrun, hrow, -, hsize, hok⟩
  · rw [herror]
    rfl
  · rw [hok]
    have hsound := h.of_sameFrame hrun.1 hrun.2
    refine ⟨?_, hrun.1.trans ⟨rfl, rfl, rfl, rfl, rfl⟩⟩
    refine hsound.modifyDictionary ?_ rfl rfl
    obtain ⟨hr, -⟩ := hsound.consistent.row?_eq_some_iff.1 hrow
    refine hsound.consistent.modifyRow r ?_
    intro _ _
    rw [hsize]
    exact hsound.consistent.row_size r (Dictionary.mem_rows.1 hr).2

/-- Changing a cost adds to an objective row at the column of the variable, or
subtracts a multiple of its row. -/
theorem changeCost_cases (hquiet : t.snapshot = none) (hindex : t.dictionary.Mentions index)
    (priority : Priority) (minimises : Bool) (difference : α) :
    (∃ c, t.dictionary.column? index = some c ∧
      changeCost index priority minimises difference t = .ok () (t.modifyDictionary fun d =>
        d.modifyObjective priority fun row =>
          Dictionary.addAt row c (orientCost minimises difference))) ∨
      ∃ r, t.dictionary.row? index = some r ∧
        changeCost index priority minimises difference t = .ok () (t.modifyDictionary fun d =>
          d.modifyObjective priority fun row =>
            Dictionary.subtractMultiple row (orientCost minimises difference)
              (t.dictionary.row r)) := by
  have hdiscard := discardSearch_eq_self hquiet
  simp only [changeCost, bind, EStateM.bind, run_modify, run_get, hdiscard]
  cases hcolumn : t.dictionary.column? index with
  | some c => exact .inl ⟨c, rfl, rfl⟩
  | none =>
    obtain ⟨r, hrow⟩ : ∃ r, t.dictionary.row? index = some r := by
      rw [Dictionary.Mentions, hcolumn] at hindex
      simpa [Option.isSome_iff_exists] using hindex
    simp only [hrow]
    exact .inr ⟨r, rfl, rfl⟩

theorem IsSound.modifyObjective (h : t.IsSound) (priority : Priority)
    {change : Array α → Array α}
    (hchange : ∀ row : Array α, row.size = t.dictionary.width →
      (change row).size = t.dictionary.width) :
    (t.modifyDictionary fun d => d.modifyObjective priority change).IsSound :=
  h.modifyDictionary (h.consistent.modifyObjective priority hchange)
    (Dictionary.rowOf_modifyObjective ..) (Dictionary.columnOf_modifyObjective ..)

theorem changeCost_sound (h : t.IsSound) (hquiet : t.snapshot = none)
    (hindex : t.dictionary.Mentions index) (priority : Priority) (minimises : Bool)
    (difference : α) :
    ∃ t', changeCost index priority minimises difference t = .ok () t' ∧ t'.IsSound ∧
      SameFrame t t' := by
  rcases changeCost_cases hquiet hindex priority minimises difference with
    ⟨c, -, hchange⟩ | ⟨r, -, hchange⟩
  · refine ⟨_, hchange, ?_, ⟨rfl, rfl, rfl, rfl, rfl⟩⟩
    apply h.modifyObjective
    intro row hrow
    simpa using hrow
  · refine ⟨_, hchange, ?_, ⟨rfl, rfl, rfl, rfl, rfl⟩⟩
    apply h.modifyObjective
    intro row hrow
    simpa using hrow

end Keeping

/-! ## Edits that add or remove a variable -/

section Exchanging

variable {t : Tableau α} {slack index : Nat}

def slackRow (d : Dictionary α) (isUpperBound : Bool) (rhs : α) : Array α :=
  (Array.replicate d.width (0 : α)).setIfInBounds 0 (boundSign isUpperBound * rhs)

def pushVariable (d : Dictionary α) (index : Nat) (priority : Priority) (cost : α) :
    Dictionary α :=
  (d.pushColumn index).modifyObjective priority fun row => row.setIfInBounds d.width cost

theorem width_pushVariable (d : Dictionary α) (index : Nat) (priority : Priority) (cost : α) :
    (pushVariable d index priority cost).width = d.width + 1 := by
  rw [pushVariable, Dictionary.width, Dictionary.nonBasic_modifyObjective]
  exact Dictionary.width_pushColumn d index

theorem addVariable_of_lookup? {data : Variable α} (hdata : t.lookup? index = some data)
    (minimises : Bool) :
    addVariable index minimises t = .ok () (t.modifyDictionary fun d =>
      pushVariable d index data.priority (orientCost minimises data.cost)) := by
  simp only [addVariable, bind, EStateM.bind, run_get, hdata]
  rfl

/-- A new variable with a column of its own. -/
theorem IsSound.register_pushVariable (h : t.IsSound) {make : Nat → Variable α}
    (hmake : ∀ index, (make index).index = index) (priority : Priority) (cost : α) :
    ((t.register make).2.modifyDictionary fun d =>
      pushVariable d t.pool.allocate.1 priority cost).IsSound := by
  have hpool := h.toHasSoundPool.register hmake
  have hfresh := h.not_mentions_allocate
  refine ⟨⟨hpool.free_nodup, hpool.free_lt, hpool.free_unknown, hpool.arena_size_le⟩, ?_, ?_⟩
  · apply (h.consistent.pushColumn hfresh).modifyObjective
    intro row hrow
    rw [Array.size_setIfInBounds]
    exact hrow
  · intro index
    have hrows : (pushVariable t.dictionary t.pool.allocate.1 priority cost).rowOf =
        (t.dictionary.pushColumn t.pool.allocate.1).rowOf :=
      Dictionary.rowOf_modifyObjective ..
    have hcolumns : (pushVariable t.dictionary t.pool.allocate.1 priority cost).columnOf =
        (t.dictionary.pushColumn t.pool.allocate.1).columnOf :=
      Dictionary.columnOf_modifyObjective ..
    have hmentions :
        (pushVariable t.dictionary t.pool.allocate.1 priority cost).Mentions index ↔
          index = t.pool.allocate.1 ∨ t.dictionary.Mentions index := by
      rw [← Dictionary.mentions_pushColumn hfresh index]
      simp only [Dictionary.Mentions, Dictionary.row?, Dictionary.column?, hrows, hcolumns]
    apply hmentions.trans
    change _ ↔ (((t.register make).2).lookup? index).isSome
    rw [lookup?_register (hmake t.pool.allocate.1) index, h.mentions_iff]
    by_cases hindex : index = t.pool.allocate.1 <;> simp [hindex]

omit [Scalar α] in
/-- A variable that loses its place is released. -/
theorem IsSound.release_of_mentions {change : Dictionary α → Dictionary α} (h : t.IsSound)
    (hindex : t.dictionary.Mentions index)
    (hconsistent : ((change t.dictionary).forget index).IsConsistent)
    (hmentions : ∀ other, ((change t.dictionary).forget index).Mentions other ↔
      other ≠ index ∧ t.dictionary.Mentions other) :
    ((t.modifyDictionary change).release index).IsSound := by
  have hpool := h.toHasSoundPool.release ((h.mentions_iff index).1 hindex)
  refine ⟨⟨hpool.free_nodup, hpool.free_lt, hpool.free_unknown, hpool.arena_size_le⟩,
    hconsistent, ?_⟩
  intro other
  apply (hmentions other).trans
  change _ ↔ ((t.release index).lookup? other).isSome
  rw [lookup?_release, h.mentions_iff]
  by_cases hother : other = index <;> simp [hother]

omit [Scalar α] in
theorem IsSound.release_dropRow (h : t.IsSound) {r : Nat}
    (hrow : t.dictionary.row? slack = some r) :
    ((t.modifyDictionary fun d => d.dropRow r).release slack).IsSound :=
  h.release_of_mentions (.inl (by rw [hrow]; rfl)) (h.consistent.dropRow_forget hrow)
    (Dictionary.mentions_dropRow_forget h.consistent hrow)

omit [Scalar α] in
theorem IsSound.release_dropColumn (h : t.IsSound) {c : Nat}
    (hcolumn : t.dictionary.column? index = some c) :
    ((t.modifyDictionary fun d => d.dropColumn c).release index).IsSound :=
  h.release_of_mentions (.inr (by rw [hcolumn]; rfl)) (h.consistent.dropColumn_forget hcolumn)
    (Dictionary.mentions_dropColumn_forget h.consistent hcolumn)

/-- Removing a constraint fails if its slack cannot enter the basis; else it drops the
row of the slack after the pivot that brought it in. -/
theorem removeConstraint_cases (allowed : Dictionary α → Nat → Nat → Prop) (h : t.IsSound)
    (hquiet : t.snapshot = none) (hslack : t.dictionary.Mentions slack)
    (hpivots : ∀ event ∈ t.enteringPivots slack,
      allowed event.before.dictionary event.row event.column) :
    removeConstraint slack t = .error (Cause.cannotEnter slack : Fault) t ∨
      ∃ r middle, OnlyPivoted allowed t middle ∧ middle.dictionary.row? slack = some r ∧
        removeConstraint slack t =
          .ok () ((middle.modifyDictionary fun d => d.dropRow r).release slack) := by
  have hremove : removeConstraint slack t =
      (do
        let r ← enterBasis slack
        modify fun t => (t.modifyDictionary fun d => d.dropRow r).release slack :
          Action α Unit) t :=
    bind_of_ok (modify_discardSearch hquiet)
  rw [hremove]
  rcases enterBasis_cases h.consistent hslack hpivots with herror | ⟨r, middle, hok, hrun, hrow⟩
  · exact .inl (bind_of_error herror)
  · exact .inr ⟨r, middle, hrun, hrow, bind_of_ok hok⟩

/-- Removing a variable fails if it cannot leave the basis; else it drops its column
after the pivot that took it out. -/
theorem removeVariable_cases (allowed : Dictionary α → Nat → Nat → Prop) (h : t.IsSound)
    (hquiet : t.snapshot = none) (hindex : t.dictionary.Mentions index)
    (hpivots : ∀ event ∈ t.leavingPivots index,
      allowed event.before.dictionary event.row event.column) :
    removeVariable index t = .error (Cause.cannotLeave index : Fault) t ∨
      ∃ c middle, OnlyPivoted allowed t middle ∧ middle.dictionary.column? index = some c ∧
        removeVariable index t =
          .ok () ((middle.modifyDictionary fun d => d.dropColumn c).release index) := by
  have hremove : removeVariable index t =
      (do
        let c ← leaveBasis index
        modify fun t => (t.modifyDictionary fun d => d.dropColumn c).release index :
          Action α Unit) t :=
    bind_of_ok (modify_discardSearch hquiet)
  rw [hremove]
  rcases leaveBasis_cases h.consistent hindex hpivots with herror | ⟨c, middle, hok, hrun, hcolumn⟩
  · exact .inl (bind_of_error herror)
  · exact .inr ⟨c, middle, hrun, hcolumn, bind_of_ok hok⟩

end Exchanging

/-! ## What edits leave alone

Without any assumption on a tableau, an edit concerns its dictionary, and a removal gives one
index back. -/

section Frames

variable {t : Tableau α}

theorem sameFrame_enterBasis (index : Nat) (t : Tableau α) :
    SameFrame t (finalState (enterBasis index t)) := by
  simp only [enterBasis, bind, EStateM.bind, run_get]
  cases t.dictionary.row? index with
  | some r => exact SameFrame.refl t
  | none =>
    cases t.dictionary.column? index with
    | none => exact SameFrame.refl t
    | some c =>
      dsimp only
      cases t.dictionary.rows.find? fun r =>
          t.precision < Scalar.abs (t.dictionary.entry r c) with
      | none => exact SameFrame.refl t
      | some r => exact sameFrame_pivot t r c

theorem sameFrame_leaveBasis (index : Nat) (t : Tableau α) :
    SameFrame t (finalState (leaveBasis index t)) := by
  simp only [leaveBasis, bind, EStateM.bind, run_get]
  cases t.dictionary.column? index with
  | some c => exact SameFrame.refl t
  | none =>
    cases t.dictionary.row? index with
    | none => exact SameFrame.refl t
    | some r =>
      dsimp only
      cases t.dictionary.columns.find? fun c =>
          t.precision < Scalar.abs (t.dictionary.entry r c) with
      | none => exact SameFrame.refl t
      | some c => exact sameFrame_pivot t r c

omit [Scalar α] in
/-- Outside a search there is nothing to leave, whatever follows. -/
theorem ends_discardSearch {failed : Fault → Tableau α → Prop} (hquiet : t.snapshot = none) :
    Ends ((modify Tableau.discardSearch : Action α PUnit) t) (fun _ t' => t' = t) failed := by
  rw [modify_discardSearch hquiet]
  rfl

theorem changeRhs_frame (hquiet : t.snapshot = none) (slack : Nat) (isUpperBound : Bool)
    (difference : α) :
    Ends (changeRhs slack isUpperBound difference t) (fun _ => SameFrame t)
      fun _ => SameFrame t := by
  simp only [changeRhs, bind, EStateM.bind, run_modify, run_get, discardSearch_eq_self hquiet]
  cases t.dictionary.row? slack with
  | some r => exact ⟨rfl, rfl, rfl, rfl, rfl⟩
  | none =>
    cases t.dictionary.column? slack with
    | none => exact SameFrame.refl t
    | some c => exact ⟨rfl, rfl, rfl, rfl, rfl⟩

theorem changeCost_frame (hquiet : t.snapshot = none) (index : Nat) (priority : Priority)
    (minimises : Bool) (difference : α) :
    Ends (changeCost index priority minimises difference t) (fun _ => SameFrame t)
      fun _ => SameFrame t := by
  simp only [changeCost, bind, EStateM.bind, run_modify, run_get, discardSearch_eq_self hquiet]
  cases t.dictionary.column? index with
  | some c => exact ⟨rfl, rfl, rfl, rfl, rfl⟩
  | none =>
    cases t.dictionary.row? index with
    | some r => exact ⟨rfl, rfl, rfl, rfl, rfl⟩
    | none => exact SameFrame.refl t

theorem changeCoefficient_frame (hquiet : t.snapshot = none) (slack : Nat) (isUpperBound : Bool)
    (index : Nat) (difference : α) :
    Ends (changeCoefficient slack isUpperBound index difference t) (fun _ => SameFrame t)
      fun _ => SameFrame t := by
  unfold changeCoefficient
  split
  · exact SameFrame.refl t
  · apply Ends.bind (ends_discardSearch hquiet)
    rintro _ t rfl
    apply Ends.bind (Ends.of_finalState (sameFrame_enterBasis slack t))
    intro r middle hmiddle
    simp only [bind, EStateM.bind, run_get]
    cases addToRow? middle.dictionary index (orientBound isUpperBound difference)
        (middle.dictionary.row r) with
    | some row => exact hmiddle.trans ⟨rfl, rfl, rfl, rfl, rfl⟩
    | none => exact hmiddle

/-- Removing a constraint releases its slack, or changes the dictionary at most. -/
theorem removeConstraint_frame (hquiet : t.snapshot = none) (slack : Nat) :
    Ends (removeConstraint slack t)
      (fun _ t' => ∃ middle change, SameFrame t middle ∧
        t' = (middle.modifyDictionary change).release slack)
      fun _ => SameFrame t := by
  apply Ends.bind (ends_discardSearch hquiet)
  rintro _ t rfl
  apply Ends.bind (Ends.of_finalState (sameFrame_enterBasis slack t))
  intro r middle hmiddle
  exact ⟨middle, _, hmiddle, rfl⟩

/-- Removing a variable releases it, or changes the dictionary at most. -/
theorem removeVariable_frame (hquiet : t.snapshot = none) (index : Nat) :
    Ends (removeVariable index t)
      (fun _ t' => ∃ middle change, SameFrame t middle ∧
        t' = (middle.modifyDictionary change).release index)
      fun _ => SameFrame t := by
  apply Ends.bind (ends_discardSearch hquiet)
  rintro _ t rfl
  apply Ends.bind (Ends.of_finalState (sameFrame_leaveBasis index t))
  intro c middle hmiddle
  exact ⟨middle, _, hmiddle, rfl⟩

end Frames

end Tableau

end MixedInteger
