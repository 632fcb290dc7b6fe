import MixedInteger.Proofs.BasisChanges
import MixedInteger.Proofs.Rows

/-!
# The objective of a priority

The objective proper is row zero of the matrix and every other objective has a row of
its own once a cost of its priority was given.  `objectiveRow` reads them in one way,
with zeros for a priority that has no row yet, so that a change of the costs of a
priority is the same change of its row whether the row existed or not.
-/

namespace MixedInteger.Dictionary

variable {α : Type} [Scalar α]

def secondaryRow? (objectives : List (Objective α)) (priority : Priority) : Option (Array α) :=
  (objectives.find? fun objective => objective.priority.level == priority.level).map
    Objective.reducedCosts

/-- The reduced costs of a priority, all zero for a priority without a row. -/
def objectiveRow (d : Dictionary α) (priority : Priority) : Array α :=
  if priority.isRequired then d.row 0
  else (secondaryRow? d.secondary priority).getD (Array.replicate d.width 0)

omit [Scalar α] in
theorem secondaryRow?_cons (objective : Objective α) (rest : List (Objective α))
    (priority : Priority) :
    secondaryRow? (objective :: rest) priority =
      if objective.priority.level = priority.level then some objective.reducedCosts
      else secondaryRow? rest priority := by
  rw [secondaryRow?, List.find?_cons]
  by_cases hlevel : objective.priority.level = priority.level
  · rw [if_pos hlevel, beq_iff_eq.2 hlevel]
    rfl
  · rw [if_neg hlevel, beq_eq_false_iff_ne.2 hlevel]
    rfl

omit [Scalar α] in
theorem secondaryRow?_eq_none_of_lt {objectives : List (Objective α)} {priority : Priority}
    (hlevels : ∀ objective ∈ objectives, priority.level < objective.priority.level) :
    secondaryRow? objectives priority = none := by
  rw [secondaryRow?, Option.map_eq_none_iff, List.find?_eq_none]
  intro objective hobjective
  have hlevel := hlevels objective hobjective
  simp only [beq_iff_eq]
  omega

omit [Scalar α] in
theorem exists_of_secondaryRow? {objectives : List (Objective α)} {priority : Priority}
    {row : Array α} (hrow : secondaryRow? objectives priority = some row) :
    ∃ objective ∈ objectives, objective.priority.level = priority.level ∧
      objective.reducedCosts = row := by
  obtain ⟨objective, hfind, rfl⟩ := Option.map_eq_some_iff.1 hrow
  exact ⟨objective, List.mem_of_find?_eq_some hfind, by simpa using List.find?_some hfind, rfl⟩

omit [Scalar α] in
/-- An update of a priority is seen at that priority and nowhere else. -/
theorem secondaryRow?_updateObjective (priority : Priority) (blank : Array α)
    (change : Array α → Array α) {objectives : List (Objective α)}
    (hascending : objectives.Pairwise fun left right => left.priority.level < right.priority.level)
    (other : Priority) :
    secondaryRow? (updateObjective priority blank change objectives) other =
      if other.level = priority.level then
        some (change ((secondaryRow? objectives other).getD blank))
      else secondaryRow? objectives other := by
  induction objectives with
  | nil =>
    rw [updateObjective, secondaryRow?_cons]
    by_cases hother : other.level = priority.level
    · rw [if_pos hother.symm, if_pos hother]
      rfl
    · rw [if_neg (Ne.symm hother), if_neg hother]
  | cons first rest ih =>
    obtain ⟨hfirst, hrest⟩ := List.pairwise_cons.1 hascending
    rw [updateObjective]
    simp only [beq_iff_eq]
    by_cases hlevel : first.priority.level = priority.level
    · rw [if_pos hlevel, secondaryRow?_cons, secondaryRow?_cons, hlevel]
      by_cases hother : other.level = priority.level
      · rw [if_pos hother.symm, if_pos hother, if_pos hother.symm]
        rfl
      · rw [if_neg (Ne.symm hother), if_neg hother, if_neg (Ne.symm hother)]
    rw [if_neg hlevel]
    by_cases hlt : priority.level < first.priority.level
    · rw [if_pos hlt, secondaryRow?_cons]
      by_cases hother : other.level = priority.level
      · -- The list ascends, so nothing behind the place of insertion has the priority.
        have hnone : secondaryRow? (first :: rest) other = none := by
          apply secondaryRow?_eq_none_of_lt
          intro objective hobjective
          rw [hother]
          cases List.mem_cons.1 hobjective with
          | inl hhead => rw [hhead]; exact hlt
          | inr htail => exact Nat.lt_trans hlt (hfirst objective htail)
        rw [if_pos hother.symm, if_pos hother, hnone]
        rfl
      · rw [if_neg (Ne.symm hother), if_neg hother]
    · rw [if_neg hlt, secondaryRow?_cons, secondaryRow?_cons, ih hrest]
      by_cases hhead : first.priority.level = other.level
      · rw [if_pos hhead, if_pos hhead, if_neg fun hother => hlevel (hhead.trans hother)]
      · rw [if_neg hhead, if_neg hhead]

variable {d : Dictionary α}

/-- A change of the costs of a priority changes the row of that priority alone. -/
theorem objectiveRow_modifyObjective (hranked : d.IsRanked) (hmatrix : 0 < d.matrix.size)
    (priority : Priority) (change : Array α → Array α) (other : Priority) :
    (d.modifyObjective priority change).objectiveRow other =
      if other.level = priority.level then change (d.objectiveRow other)
      else d.objectiveRow other := by
  have hwidth : (d.modifyObjective priority change).width = d.width := by
    rw [width, nonBasic_modifyObjective, width]
  rw [objectiveRow, objectiveRow, hwidth]
  unfold Dictionary.modifyObjective
  by_cases hpriority : priority.level = 0
  · have hrequired : priority.isRequired = true := by simp [Priority.isRequired, hpriority]
    rw [hrequired, if_pos rfl, hpriority]
    by_cases hother : other.level = 0
    · have hother' : other.isRequired = true := by simp [Priority.isRequired, hother]
      rw [hother', if_pos rfl, if_pos rfl, if_pos hother, row_modifyRow, if_pos ⟨rfl, hmatrix⟩]
    · have hother' : other.isRequired = false := by simp [Priority.isRequired, hother]
      rw [hother', if_neg hother]
      rfl
  · have hrequired : priority.isRequired = false := by simp [Priority.isRequired, hpriority]
    rw [hrequired]
    by_cases hother : other.level = 0
    · have hother' : other.isRequired = true := by simp [Priority.isRequired, hother]
      have hne : other.level ≠ priority.level := fun hsame => hpriority (hsame.symm.trans hother)
      rw [hother', if_neg hne]
      rfl
    · have hother' : other.isRequired = false := by simp [Priority.isRequired, hother]
      rw [hother']
      simp only [Bool.false_eq_true, if_false]
      rw [secondaryRow?_updateObjective priority _ change hranked.ascending]
      by_cases hsame : other.level = priority.level
      · rw [if_pos hsame, if_pos hsame]
        rfl
      · rw [if_neg hsame, if_neg hsame]

/-- Rows behind the objective are untouched by a change of costs. -/
theorem row_modifyObjective (priority : Priority) (change : Array α → Array α) {r : Nat}
    (hr : 0 < r) : (d.modifyObjective priority change).row r = d.row r := by
  unfold Dictionary.modifyObjective
  split
  · rw [row_modifyRow, if_neg (by omega)]
  · rfl

theorem size_objectiveRow (h : d.IsRectangular) (hheight : 0 < d.height) (priority : Priority) :
    (d.objectiveRow priority).size = d.width := by
  unfold objectiveRow
  split
  · exact h.row_size 0 hheight
  · cases hrow : secondaryRow? d.secondary priority with
    | none => exact Array.size_replicate
    | some row =>
      obtain ⟨objective, hobjective, -, rfl⟩ := exists_of_secondaryRow? hrow
      exact h.objective_size objective hobjective

theorem objectiveRow_modifyRow {r : Nat} (hr : 0 < r) (change : Array α → Array α)
    (priority : Priority) :
    (d.modifyRow r change).objectiveRow priority = d.objectiveRow priority := by
  have hrow : (d.modifyRow r change).row 0 = d.row 0 := by
    rw [row_modifyRow, if_neg (by omega)]
  rw [objectiveRow, objectiveRow, hrow]
  rfl

/-- A change of all rows alike is seen in every objective, if it keeps zeros. -/
theorem entryOf_objectiveRow_of_map {d' : Dictionary α} (change : Array α → Array α)
    (hrow : d'.row 0 = change (d.row 0))
    (hsecondary : d'.secondary = d.secondary.map fun objective =>
      { objective with reducedCosts := change objective.reducedCosts })
    (hblank : ∀ c, entryOf (change (Array.replicate d.width 0)) c = 0)
    (priority : Priority) (c : Nat) :
    entryOf (d'.objectiveRow priority) c = entryOf (change (d.objectiveRow priority)) c := by
  have hmap : secondaryRow? d'.secondary priority =
      (secondaryRow? d.secondary priority).map change := by
    rw [secondaryRow?, secondaryRow?, hsecondary, List.find?_map, Option.map_map, Option.map_map]
    rfl
  rw [objectiveRow, objectiveRow, hmap]
  split
  · rw [hrow]
  · cases secondaryRow? d.secondary priority with
    | none => exact (entryOf_replicate_zero _ _).trans (hblank c).symm
    | some row => rfl

end MixedInteger.Dictionary
