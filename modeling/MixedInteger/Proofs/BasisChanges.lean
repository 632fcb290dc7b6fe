import MixedInteger.Proofs.Basis
import MixedInteger.Proofs.Rows

/-!
# Changes that keep the basis

Pivots, new rows and columns, dropped rows and columns, and changes of numbers
alone all lead from one consistent dictionary to another.  For each change the
four tables after it are described first, and consistency follows from that
description.
-/

namespace MixedInteger.Dictionary

variable {α : Type}

/-! ## Positions in the tables -/

theorem getElem?_join_setIfInBounds {β : Type} {items : Array (Option β)} {position : Nat}
    (hposition : position < items.size) (value : Option β) (i : Nat) :
    (items.setIfInBounds position value)[i]?.join =
      if i = position then value else items[i]?.join := by
  rw [Array.getElem?_setIfInBounds]
  by_cases hi : i = position
  · rw [if_pos hi.symm, if_pos hposition, if_pos hi]
    rfl
  · rw [if_neg (Ne.symm hi), if_neg hi]

/-! ## One table and its places -/

namespace Agrees

variable {names : Array (Option Nat)} {places places' : Places} {p old new : Nat}

theorem of_position (h : Agrees names places)
    (hplaces : ∀ index, places'.position index = places.position index) :
    Agrees names places' := by
  refine ⟨h.size_pos, h.filled, ?_⟩
  intro index q
  rw [hplaces, h.position_eq_some_iff]

/-- Another name takes a position. -/
theorem replace (h : Agrees names places) (hp : 0 < p) (hold : names[p]?.join = some old)
    (hnew : places.position new = none)
    (hplaces : ∀ index, places'.position index =
      if index = old then none else if index = new then some p else places.position index) :
    Agrees (names.setIfInBounds p (some new)) places' := by
  have hbound : p < names.size := lt_size hold
  have hnames := getElem?_join_setIfInBounds hbound (some new)
  refine ⟨by simpa using h.size_pos, ?_, ?_⟩
  · intro q hq hqsize
    rw [hnames]
    by_cases hqp : q = p
    · exact ⟨new, if_pos hqp⟩
    · obtain ⟨index, hindex⟩ := h.filled q hq (by simpa using hqsize)
      exact ⟨index, (if_neg hqp).trans hindex⟩
  · intro index q
    rw [hplaces, hnames]
    by_cases hindexOld : index = old
    · -- The old name is gone: it stood at `p` alone, and is not the new one.
      subst hindexOld
      have hplace : places.position index = some p := h.position_eq_some_iff.2 ⟨hp, hold⟩
      have hne : new ≠ index := by
        rintro rfl
        rw [hnew] at hplace
        exact absurd hplace (by simp)
      rw [if_pos rfl]
      constructor
      · intro hnone
        exact absurd hnone (by simp)
      · rintro ⟨hq, hname⟩
        by_cases hqp : q = p
        · rw [if_pos hqp, Option.some.injEq] at hname
          exact absurd hname hne
        · rw [if_neg hqp] at hname
          exact absurd (h.name_inj hq hp hname hold) hqp
    rw [if_neg hindexOld]
    by_cases hindexNew : index = new
    · rw [if_pos hindexNew, Option.some.injEq]
      constructor
      · rintro rfl
        exact ⟨hp, (if_pos rfl).trans (congrArg some hindexNew.symm)⟩
      · rintro ⟨hq, hname⟩
        by_cases hqp : q = p
        · exact hqp.symm
        · rw [if_neg hqp, hindexNew] at hname
          rw [h.position_eq_some_iff.2 ⟨hq, hname⟩] at hnew
          exact absurd hnew (by simp)
    · rw [if_neg hindexNew, h.position_eq_some_iff]
      by_cases hqp : q = p
      · subst hqp
        simp [hold, Ne.symm hindexOld, Ne.symm hindexNew]
      · rw [if_neg hqp]

/-- A new name comes last. -/
theorem push (h : Agrees names places) (hnew : places.position new = none)
    (hplaces : ∀ index, places'.position index =
      if index = new then some names.size else places.position index) :
    Agrees (names.push (some new)) places' := by
  have hnames (q : Nat) : (names.push (some new))[q]?.join =
      if q = names.size then some new else names[q]?.join := by
    rw [Array.getElem?_push]
    split <;> rfl
  refine ⟨by simp, ?_, ?_⟩
  · intro q hq hqsize
    rw [hnames]
    by_cases hlast : q = names.size
    · exact ⟨new, if_pos hlast⟩
    · rw [Array.size_push] at hqsize
      obtain ⟨index, hindex⟩ := h.filled q hq (by omega)
      exact ⟨index, (if_neg hlast).trans hindex⟩
  · intro index q
    rw [hplaces, hnames]
    by_cases hindex : index = new
    · rw [if_pos hindex, Option.some.injEq]
      constructor
      · rintro rfl
        exact ⟨h.size_pos, (if_pos rfl).trans (congrArg some hindex.symm)⟩
      · rintro ⟨hq, hname⟩
        by_cases hlast : q = names.size
        · exact hlast.symm
        · rw [if_neg hlast, hindex] at hname
          rw [h.position_eq_some_iff.2 ⟨hq, hname⟩] at hnew
          exact absurd hnew (by simp)
    · rw [if_neg hindex, h.position_eq_some_iff]
      by_cases hlast : q = names.size
      · subst hlast
        simp [Ne.symm hindex]
      · rw [if_neg hlast]

/-- The last name, at its new position, and the others, at theirs. -/
theorem join_swapErase_eq_some_iff {names : Array (Option Nat)} (hp : p < names.size)
    {q index : Nat} :
    (Dictionary.swapErase names p)[q]?.join = some index ↔
      q + 1 < names.size ∧ (q = p ∧ names[names.size - 1]?.join = some index ∨
        q ≠ p ∧ names[q]?.join = some index) := by
  rw [join_swapErase hp]
  by_cases hq : q + 1 < names.size
  · by_cases hqp : q = p
    · simp [hqp]
    · simp [hq, hqp]
  · simp [hq]

/-- A name goes, and the last one takes its position. -/
theorem swapErase (h : Agrees names places) (hp : 0 < p) (hold : names[p]?.join = some old)
    (hplaces : ∀ index, places'.position index =
      if index = old then none
      else if (swapErase names p)[p]?.join = some index then some p
      else places.position index) :
    Agrees (swapErase names p) places' := by
  have hbound : p < names.size := lt_size hold
  refine ⟨by rw [size_swapErase]; omega, ?_, ?_⟩
  · intro q hq hqsize
    rw [size_swapErase] at hqsize
    rw [join_swapErase hbound, if_pos (by omega)]
    by_cases hqp : q = p
    · obtain ⟨index, hindex⟩ := h.filled (names.size - 1) (by omega) (by omega)
      exact ⟨index, (if_pos hqp).trans hindex⟩
    · obtain ⟨index, hindex⟩ := h.filled q hq (by omega)
      exact ⟨index, (if_neg hqp).trans hindex⟩
  · intro index q
    rw [hplaces]
    by_cases hindexOld : index = old
    · -- The old name stood at `p` alone.
      rw [if_pos hindexOld, join_swapErase_eq_some_iff hbound]
      rw [← hindexOld] at hold
      constructor
      · intro hnone
        exact absurd hnone (by simp)
      · rintro ⟨hq, hqsize, ⟨hqp, hname⟩ | ⟨hqp, hname⟩⟩
        · have hlast := h.name_inj (by omega) hp hname hold
          omega
        · exact absurd (h.name_inj hq hp hname hold) hqp
    rw [if_neg hindexOld]
    by_cases hmoved : (Dictionary.swapErase names p)[p]?.join = some index
    · rw [if_pos hmoved, Option.some.injEq]
      constructor
      · rintro rfl
        exact ⟨hp, hmoved⟩
      · rintro ⟨hq, hname⟩
        rw [join_swapErase_eq_some_iff hbound] at hname hmoved
        obtain ⟨hqsize, ⟨hqp, -⟩ | ⟨hqp, hname⟩⟩ := hname
        · exact hqp.symm
        · have hlast : names[names.size - 1]?.join = some index := by simpa using hmoved.2
          have hsame := h.name_inj hq (by omega) hname hlast
          omega
    · rw [if_neg hmoved, h.position_eq_some_iff, join_swapErase_eq_some_iff hbound]
      rw [join_swapErase_eq_some_iff hbound] at hmoved
      constructor
      · rintro ⟨hq, hname⟩
        have hqp : q ≠ p := by
          rintro rfl
          rw [hold, Option.some.injEq] at hname
          exact hindexOld hname.symm
        have hqbound : q < names.size := lt_size hname
        have hqlast : q ≠ names.size - 1 := by
          intro hlast
          rw [hlast] at hname
          exact hmoved ⟨by omega, .inl ⟨rfl, hname⟩⟩
        exact ⟨hq, by omega, .inr ⟨hqp, hname⟩⟩
      · rintro ⟨hq, hqsize, ⟨rfl, hname⟩ | ⟨-, hname⟩⟩
        · exact absurd ⟨hqsize, .inl ⟨rfl, hname⟩⟩ hmoved
        · exact ⟨hq, hname⟩

/-- The names that are left after one is gone. -/
theorem isSome_position_swapErase (h : Agrees names places) (hold : names[p]?.join = some old)
    (hplaces : ∀ index, places'.position index =
      if index = old then none
      else if (Dictionary.swapErase names p)[p]?.join = some index then some p
      else places.position index) (index : Nat) :
    (places'.position index).isSome ↔ index ≠ old ∧ (places.position index).isSome := by
  have hbound : p < names.size := lt_size hold
  rw [hplaces]
  by_cases hindex : index = old
  · simp [hindex]
  rw [if_neg hindex]
  split
  · rename_i hmoved
    obtain ⟨hlast, hname⟩ := (join_swapErase_eq_some_iff hbound).1 hmoved
    have hmovedName : names[names.size - 1]?.join = some index := by simpa using hname
    have hplace := h.position_eq_some_iff.2 ⟨by omega, hmovedName⟩
    simp [hindex, hplace]
  · simp [hindex]

end Agrees

/-! ## Pivots -/

section Exchange

variable {d : Dictionary α} {r c leaving entering : Nat}

@[simp]
theorem height_exchange (d : Dictionary α) (r c : Nat) : (d.exchange r c).height = d.height := by
  unfold exchange height
  split <;> simp

@[simp]
theorem width_exchange (d : Dictionary α) (r c : Nat) : (d.exchange r c).width = d.width := by
  unfold exchange width
  split <;> simp

theorem basicAt_exchange (hr : r < d.height) (hleaving : d.basicAt r = some leaving)
    (hentering : d.nonBasicAt c = some entering) (i : Nat) :
    (d.exchange r c).basicAt i = if i = r then some entering else d.basicAt i := by
  unfold exchange
  rw [hleaving, hentering]
  exact getElem?_join_setIfInBounds hr (some entering) i

theorem nonBasicAt_exchange (hc : c < d.width) (hleaving : d.basicAt r = some leaving)
    (hentering : d.nonBasicAt c = some entering) (i : Nat) :
    (d.exchange r c).nonBasicAt i = if i = c then some leaving else d.nonBasicAt i := by
  unfold exchange
  rw [hleaving, hentering]
  exact getElem?_join_setIfInBounds hc (some leaving) i

theorem row?_exchange (hleaving : d.basicAt r = some leaving)
    (hentering : d.nonBasicAt c = some entering) (i : Nat) :
    (d.exchange r c).row? i =
      if i = leaving then none else if i = entering then some r else d.row? i := by
  simp only [exchange, hleaving, hentering, row?, Places.position_clear, Places.position_place]

theorem column?_exchange (hleaving : d.basicAt r = some leaving)
    (hentering : d.nonBasicAt c = some entering) (i : Nat) :
    (d.exchange r c).column? i =
      if i = leaving then some c else if i = entering then none else d.column? i := by
  simp only [exchange, hleaving, hentering, column?, Places.position_clear, Places.position_place]

/-- Exchanging a basic and a non-basic variable keeps the tables in agreement. -/
theorem IsNamed.exchange (h : d.IsNamed) (hr : r ∈ d.rows) (hc : c ∈ d.columns) :
    (d.exchange r c).IsNamed := by
  obtain ⟨leaving, hleaving⟩ := h.exists_basicAt hr
  obtain ⟨entering, hentering⟩ := h.exists_nonBasicAt hc
  have hne : leaving ≠ entering := h.basicAt_ne_nonBasicAt hr hc hleaving hentering
  have hrow := row?_exchange hleaving hentering
  have hcolumn := column?_exchange hleaving hentering
  constructor
  · intro i hi
    rw [mem_rows, height_exchange, ← mem_rows] at hi
    rw [basicAt_exchange (mem_rows.1 hr).2 hleaving hentering]
    by_cases hir : i = r
    · refine ⟨entering, if_pos hir, ?_, ?_⟩
      · rw [hrow, if_neg hne.symm, if_pos rfl, hir]
      · rw [hcolumn, if_neg hne.symm, if_pos rfl]
    · -- The variable of another row is neither of the two that are exchanged.
      obtain ⟨index, hindex, hplace, hnone⟩ := h.basic_placed i hi
      have hleave : index ≠ leaving := by
        rintro rfl
        exact hir (h.basicAt_inj hi hr hindex hleaving)
      have henter : index ≠ entering := h.basicAt_ne_nonBasicAt hi hc hindex hentering
      refine ⟨index, (if_neg hir).trans hindex, ?_, ?_⟩
      · rw [hrow, if_neg hleave, if_neg henter, hplace]
      · rw [hcolumn, if_neg hleave, if_neg henter, hnone]
  · intro e he
    rw [mem_columns, width_exchange, ← mem_columns] at he
    rw [nonBasicAt_exchange (mem_columns.1 hc).2 hleaving hentering]
    by_cases hec : e = c
    · refine ⟨leaving, if_pos hec, ?_, ?_⟩
      · rw [hcolumn, if_pos rfl, hec]
      · rw [hrow, if_pos rfl]
    · obtain ⟨index, hindex, hplace, hnone⟩ := h.nonBasic_placed e he
      have hleave : index ≠ leaving :=
        (h.basicAt_ne_nonBasicAt hr he hleaving hindex).symm
      have henter : index ≠ entering := by
        rintro rfl
        exact hec (h.nonBasicAt_inj he hc hindex hentering)
      refine ⟨index, (if_neg hec).trans hindex, ?_, ?_⟩
      · rw [hcolumn, if_neg hleave, if_neg henter, hplace]
      · rw [hrow, if_neg hleave, if_neg henter, hnone]

end Exchange

section Pivot

variable [Scalar α] {d : Dictionary α} {r c : Nat}

@[simp]
theorem height_pivot (d : Dictionary α) (r c : Nat) : (d.pivot r c).height = d.height :=
  height_exchange d r c

@[simp]
theorem width_pivot (d : Dictionary α) (r c : Nat) : (d.pivot r c).width = d.width :=
  width_exchange d r c

theorem IsRectangular.pivot (h : d.IsRectangular) (hr : r ∈ d.rows) :
    (d.pivot r c).IsRectangular := by
  refine ⟨?_, ?_, ?_⟩
  · rw [height_pivot, ← h.matrix_size]
    simp [Dictionary.pivot]
  · intro i hi
    rw [height_pivot] at hi
    rw [width_pivot, row_pivot d r c (by rw [h.matrix_size]; exact hi)]
    split
    · simpa using h.row_size r (mem_rows.1 hr).2
    · simpa using h.row_size i hi
  · intro objective hobjective
    obtain ⟨before, hbefore, rfl⟩ := List.mem_map.1 hobjective
    simpa using h.objective_size before hbefore

theorem HasBasis.pivot (h : d.HasBasis) (hr : r ∈ d.rows) (hc : c ∈ d.columns) :
    (d.pivot r c).HasBasis :=
  ⟨h.toIsRectangular.pivot hr, (h.toIsNamed.exchange hr hc).1, (h.toIsNamed.exchange hr hc).2⟩

theorem IsRanked.pivot (h : d.IsRanked) : (d.pivot r c).IsRanked := by
  constructor
  · simpa [Dictionary.pivot, List.pairwise_map] using h.ascending
  · intro objective hobjective
    obtain ⟨before, hbefore, rfl⟩ := List.mem_map.1 hobjective
    exact h.positive before hbefore

/-- A pivot leads from one consistent dictionary to another. -/
theorem IsConsistent.pivot (h : d.IsConsistent) (hr : r ∈ d.rows) (hc : c ∈ d.columns) :
    (d.pivot r c).IsConsistent := by
  obtain ⟨leaving, hleaving, hleavingRow, hleavingColumn⟩ := h.isNamed.basic_placed r hr
  obtain ⟨entering, hentering, henteringColumn, henteringRow⟩ := h.isNamed.nonBasic_placed c hc
  have hrow := row?_exchange hleaving hentering
  have hcolumn := column?_exchange hleaving hentering
  refine ⟨h.toIsRectangular.pivot hr, h.toIsRanked.pivot, ?_, ?_, ?_⟩
  · have hnames : (d.pivot r c).basic = d.basic.setIfInBounds r (some entering) := by
      simp only [Dictionary.pivot, exchange, hleaving, hentering]
    rw [hnames]
    exact h.rows_agree.replace (mem_rows.1 hr).1 hleaving henteringRow hrow
  · have hnames : (d.pivot r c).nonBasic = d.nonBasic.setIfInBounds c (some leaving) := by
      simp only [Dictionary.pivot, exchange, hleaving, hentering]
    rw [hnames]
    refine h.columns_agree.replace (mem_columns.1 hc).1 hentering hleavingColumn ?_
    intro index
    refine (hcolumn index).trans ?_
    by_cases hleave : index = leaving
    · have hne : index ≠ entering := by
        rintro rfl
        rw [hleave, hleavingColumn] at henteringColumn
        exact absurd henteringColumn (by simp)
      rw [if_pos hleave, if_neg hne, if_pos hleave]
    · rw [if_neg hleave, if_neg hleave]
      rfl
  · intro index
    by_cases hleave : index = leaving
    · exact .inl ((hrow index).trans (if_pos hleave))
    by_cases henter : index = entering
    · exact .inr ((hcolumn index).trans (by rw [if_neg hleave, if_pos henter]))
    · refine (h.apart index).imp (fun hnone => ?_) (fun hnone => ?_)
      · exact (hrow index).trans (by rw [if_neg hleave, if_neg henter, hnone])
      · exact (hcolumn index).trans (by rw [if_neg hleave, if_neg henter, hnone])

/-- A pivot keeps the set of variables. -/
theorem mentions_pivot (h : d.IsNamed) (hr : r ∈ d.rows) (hc : c ∈ d.columns) (index : Nat) :
    (d.pivot r c).Mentions index ↔ d.Mentions index := by
  obtain ⟨leaving, hleaving⟩ := h.exists_basicAt hr
  obtain ⟨entering, hentering⟩ := h.exists_nonBasicAt hc
  have hrow : (d.pivot r c).row? index = (d.exchange r c).row? index := rfl
  have hcolumn : (d.pivot r c).column? index = (d.exchange r c).column? index := rfl
  rw [Mentions, Mentions, hrow, hcolumn, row?_exchange hleaving hentering,
    column?_exchange hleaving hentering]
  by_cases hleave : index = leaving
  · simp [hleave, h.row?_eq_some hr hleaving]
  by_cases henter : index = entering
  · subst henter
    simp [hleave, h.column?_eq_some hc hentering]
  · simp [hleave, henter]

end Pivot

/-! ## Changes of numbers alone -/

section Numbers

variable {d : Dictionary α}

theorem IsRectangular.modifyRow (h : d.IsRectangular) (r : Nat) {change : Array α → Array α}
    (hchange : ∀ row : Array α, row.size = d.width → (change row).size = d.width) :
    (d.modifyRow r change).IsRectangular := by
  refine ⟨(Array.size_modify ..).trans h.matrix_size, ?_, h.objective_size⟩
  intro i hi
  rw [row_modifyRow]
  split
  · exact hchange _ (h.row_size i hi)
  · exact h.row_size i hi

theorem IsConsistent.modifyRow (h : d.IsConsistent) (r : Nat) {change : Array α → Array α}
    (hchange : ∀ row : Array α, row.size = d.width → (change row).size = d.width) :
    (d.modifyRow r change).IsConsistent :=
  ⟨h.toIsRectangular.modifyRow r hchange, ⟨h.ascending, h.positive⟩, h.rows_agree,
    h.columns_agree, h.apart⟩

/-- Every objective after an update was there before, or has the updated priority
and changed reduced costs. -/
theorem mem_updateObjective {priority : Priority} {blank : Array α} {change : Array α → Array α}
    {objectives : List (Objective α)} {objective : Objective α}
    (hobjective : objective ∈ updateObjective priority blank change objectives) :
    objective ∈ objectives ∨ objective.priority.level = priority.level ∧
      (objective.reducedCosts = change blank ∨
        ∃ before ∈ objectives, objective.reducedCosts = change before.reducedCosts) := by
  induction objectives with
  | nil =>
    rw [updateObjective, List.mem_singleton] at hobjective
    subst hobjective
    exact .inr ⟨rfl, .inl rfl⟩
  | cons first rest ih =>
    unfold updateObjective at hobjective
    split at hobjective
    · rename_i hlevel
      rcases List.mem_cons.1 hobjective with rfl | hrest
      · exact .inr ⟨beq_iff_eq.1 hlevel, .inr ⟨first, List.mem_cons_self, rfl⟩⟩
      · exact .inl (List.mem_cons_of_mem first hrest)
    · split at hobjective
      · rcases List.mem_cons.1 hobjective with rfl | hold
        · exact .inr ⟨rfl, .inl rfl⟩
        · exact .inl hold
      · rcases List.mem_cons.1 hobjective with rfl | hrest
        · exact .inl List.mem_cons_self
        · rcases ih hrest with hold | ⟨hlevel, hcosts⟩
          · exact .inl (List.mem_cons_of_mem first hold)
          · refine .inr ⟨hlevel, hcosts.imp id ?_⟩
            rintro ⟨before, hbefore, hchange⟩
            exact ⟨before, List.mem_cons_of_mem first hbefore, hchange⟩

theorem pairwise_updateObjective (priority : Priority) (blank : Array α)
    (change : Array α → Array α) {objectives : List (Objective α)}
    (h : objectives.Pairwise fun left right => left.priority.level < right.priority.level) :
    (updateObjective priority blank change objectives).Pairwise
      fun left right => left.priority.level < right.priority.level := by
  induction objectives with
  | nil => exact List.pairwise_singleton _ _
  | cons first rest ih =>
    obtain ⟨hfirst, hrest⟩ := List.pairwise_cons.1 h
    unfold updateObjective
    split
    · exact List.pairwise_cons.2 ⟨hfirst, hrest⟩
    · rename_i hne
      split
      · rename_i hlt
        refine List.pairwise_cons.2 ⟨?_, h⟩
        intro objective hobjective
        rcases List.mem_cons.1 hobjective with rfl | hlater
        · exact hlt
        · exact Nat.lt_trans hlt (hfirst objective hlater)
      · rename_i hge
        refine List.pairwise_cons.2 ⟨?_, ih hrest⟩
        intro objective hobjective
        rcases mem_updateObjective hobjective with hold | ⟨hlevel, -⟩
        · exact hfirst objective hold
        · have : first.priority.level ≠ priority.level := fun heq => hne (beq_iff_eq.2 heq)
          omega

theorem IsRectangular.modifyObjective [Scalar α] (h : d.IsRectangular) (priority : Priority)
    {change : Array α → Array α}
    (hchange : ∀ row : Array α, row.size = d.width → (change row).size = d.width) :
    (d.modifyObjective priority change).IsRectangular := by
  unfold Dictionary.modifyObjective
  split
  · exact h.modifyRow 0 hchange
  · refine ⟨h.matrix_size, h.row_size, ?_⟩
    intro objective hobjective
    rcases mem_updateObjective hobjective with hold | ⟨-, hblank | ⟨before, hbefore, hcosts⟩⟩
    · exact h.objective_size objective hold
    · rw [hblank]
      exact hchange _ (by simp)
    · rw [hcosts]
      exact hchange _ (h.objective_size before hbefore)

theorem IsRanked.modifyObjective [Scalar α] (h : d.IsRanked) (priority : Priority)
    (change : Array α → Array α) : (d.modifyObjective priority change).IsRanked := by
  unfold Dictionary.modifyObjective
  split
  · exact ⟨h.ascending, h.positive⟩
  · rename_i hpriority
    have hpos : 0 < priority.level := by
      simpa [Priority.isRequired, Nat.pos_iff_ne_zero] using hpriority
    refine ⟨pairwise_updateObjective priority _ change h.ascending, ?_⟩
    intro objective hobjective
    rcases mem_updateObjective hobjective with hold | ⟨hlevel, -⟩
    · exact h.positive objective hold
    · rw [hlevel]
      exact hpos

section Names

variable [Scalar α] (d) (priority : Priority) (change : Array α → Array α)

@[simp]
theorem basic_modifyObjective : (d.modifyObjective priority change).basic = d.basic := by
  unfold Dictionary.modifyObjective
  split <;> rfl

@[simp]
theorem nonBasic_modifyObjective : (d.modifyObjective priority change).nonBasic = d.nonBasic := by
  unfold Dictionary.modifyObjective
  split <;> rfl

@[simp]
theorem rowOf_modifyObjective : (d.modifyObjective priority change).rowOf = d.rowOf := by
  unfold Dictionary.modifyObjective
  split <;> rfl

@[simp]
theorem columnOf_modifyObjective : (d.modifyObjective priority change).columnOf = d.columnOf := by
  unfold Dictionary.modifyObjective
  split <;> rfl

end Names

theorem IsConsistent.modifyObjective [Scalar α] (h : d.IsConsistent) (priority : Priority)
    {change : Array α → Array α}
    (hchange : ∀ row : Array α, row.size = d.width → (change row).size = d.width) :
    (d.modifyObjective priority change).IsConsistent := by
  refine ⟨h.toIsRectangular.modifyObjective priority hchange,
    h.toIsRanked.modifyObjective priority change, ?_, ?_, ?_⟩
  · rw [basic_modifyObjective, rowOf_modifyObjective]
    exact h.rows_agree
  · rw [nonBasic_modifyObjective, columnOf_modifyObjective]
    exact h.columns_agree
  · intro index
    simp only [row?, column?, rowOf_modifyObjective, columnOf_modifyObjective]
    exact h.apart index

/-- Any change of all rows and objectives that keeps their lengths. -/
theorem IsConsistent.mapRows (h : d.IsConsistent) {change : Array α → Array α}
    (hchange : ∀ row : Array α, row.size = d.width → (change row).size = d.width) :
    IsConsistent { d with
      matrix := d.matrix.map change
      secondary := d.secondary.map fun objective =>
        { objective with reducedCosts := change objective.reducedCosts } } := by
  refine ⟨⟨?_, ?_, ?_⟩, ⟨?_, ?_⟩, h.rows_agree, h.columns_agree, h.apart⟩
  · exact (Array.size_map ..).trans h.matrix_size
  · intro r hr
    have hbound : r < d.matrix.size := by
      rw [h.matrix_size]
      exact hr
    have hrow := hchange _ (h.row_size r hr)
    have hmap : (d.matrix.map change).getD r #[] = change (d.row r) := by
      simp [row_eq, hbound]
    exact (congrArg Array.size hmap).trans hrow
  · intro objective hobjective
    obtain ⟨before, hbefore, rfl⟩ := List.mem_map.1 hobjective
    exact hchange _ (h.objective_size before hbefore)
  · exact List.pairwise_map.2 h.ascending
  · intro objective hobjective
    obtain ⟨before, hbefore, rfl⟩ := List.mem_map.1 hobjective
    exact h.positive before hbefore

end Numbers

/-! ## New rows and columns -/

section Growth

variable {d : Dictionary α} {index : Nat}

theorem mentions_iff_ne_none {d : Dictionary α} {index : Nat} :
    ¬ d.Mentions index ↔ d.row? index = none ∧ d.column? index = none := by
  simp [Mentions]

theorem row?_pushRow (d : Dictionary α) (slack : Nat) (row : Array α) (index : Nat) :
    (d.pushRow slack row).row? index =
      if index = slack then some d.height else d.row? index := by
  simp only [pushRow, row?, Places.position_place]

theorem column?_pushRow (hslack : ¬ d.Mentions index) (row : Array α) (other : Nat) :
    (d.pushRow index row).column? other = d.column? other := by
  simp only [pushRow, column?, Places.position_clear, Places.position_cover]
  split
  · rename_i heq
    rw [heq]
    exact (mentions_iff_ne_none.1 hslack).2.symm
  · rfl

theorem mentions_pushRow (hslack : ¬ d.Mentions index) (row : Array α) (other : Nat) :
    (d.pushRow index row).Mentions other ↔ other = index ∨ d.Mentions other := by
  rw [Mentions, Mentions, row?_pushRow, column?_pushRow hslack]
  by_cases hother : other = index <;> simp [hother]

theorem IsRectangular.pushRow (h : d.IsRectangular) (index : Nat) {row : Array α}
    (hrow : row.size = d.width) : (d.pushRow index row).IsRectangular := by
  have hheight : (d.pushRow index row).height = d.height + 1 := Array.size_push ..
  refine ⟨?_, ?_, h.objective_size⟩
  · rw [hheight, ← h.matrix_size]
    exact Array.size_push ..
  · intro r hr
    rw [row_pushRow, h.matrix_size]
    split
    · exact hrow
    · exact h.row_size r (by omega)

/-- A row for a new variable. -/
theorem IsConsistent.pushRow (h : d.IsConsistent) (hslack : ¬ d.Mentions index)
    {row : Array α} (hrow : row.size = d.width) : (d.pushRow index row).IsConsistent := by
  have hplaces := row?_pushRow d index row
  have hcolumns := column?_pushRow hslack row
  refine ⟨h.toIsRectangular.pushRow index hrow, ⟨h.ascending, h.positive⟩, ?_, ?_, ?_⟩
  · exact h.rows_agree.push (mentions_iff_ne_none.1 hslack).1 hplaces
  · exact h.columns_agree.of_position hcolumns
  · intro other
    by_cases hother : other = index
    · exact .inr ((hcolumns other).trans (hother ▸ (mentions_iff_ne_none.1 hslack).2))
    · refine (h.apart other).imp (fun hnone => ?_) (fun hnone => (hcolumns other).trans hnone)
      exact (hplaces other).trans ((if_neg hother).trans hnone)

variable [Scalar α]

theorem column?_pushColumn (d : Dictionary α) (index other : Nat) :
    (d.pushColumn index).column? other =
      if other = index then some d.width else d.column? other := by
  simp only [pushColumn, column?, Places.position_place]

theorem row?_pushColumn (hindex : ¬ d.Mentions index) (other : Nat) :
    (d.pushColumn index).row? other = d.row? other := by
  simp only [pushColumn, row?, Places.position_clear, Places.position_cover]
  split
  · rename_i heq
    rw [heq]
    exact (mentions_iff_ne_none.1 hindex).1.symm
  · rfl

@[simp]
theorem width_pushColumn (d : Dictionary α) (index : Nat) :
    (d.pushColumn index).width = d.width + 1 :=
  Array.size_push ..

theorem mentions_pushColumn (hindex : ¬ d.Mentions index) (other : Nat) :
    (d.pushColumn index).Mentions other ↔ other = index ∨ d.Mentions other := by
  rw [Mentions, Mentions, column?_pushColumn, row?_pushColumn hindex]
  by_cases hother : other = index <;> simp [hother]

/-- A column for a new variable. -/
theorem IsConsistent.pushColumn (h : d.IsConsistent) (hindex : ¬ d.Mentions index) :
    (d.pushColumn index).IsConsistent := by
  have hplaces := column?_pushColumn d index
  have hrows := row?_pushColumn hindex
  refine ⟨⟨?_, ?_, ?_⟩, ⟨?_, ?_⟩, ?_, ?_, ?_⟩
  · exact (Array.size_map ..).trans h.matrix_size
  · intro r hr
    rw [row_pushColumn d index (by rw [h.matrix_size]; exact hr), width_pushColumn,
      Array.size_push, h.row_size r hr]
  · intro objective hobjective
    obtain ⟨before, hbefore, rfl⟩ := List.mem_map.1 hobjective
    rw [width_pushColumn, Array.size_push, h.objective_size before hbefore]
  · exact List.pairwise_map.2 h.ascending
  · intro objective hobjective
    obtain ⟨before, hbefore, rfl⟩ := List.mem_map.1 hobjective
    exact h.positive before hbefore
  · exact h.rows_agree.of_position hrows
  · exact h.columns_agree.push (mentions_iff_ne_none.1 hindex).2 hplaces
  · intro other
    by_cases hother : other = index
    · exact .inl ((hrows other).trans (hother ▸ (mentions_iff_ne_none.1 hindex).1))
    · refine (h.apart other).imp (fun hnone => (hrows other).trans hnone) (fun hnone => ?_)
      exact (hplaces other).trans ((if_neg hother).trans hnone)

end Growth

/-! ## Dropped rows and columns -/

section Shrinkage

variable {d : Dictionary α} {r c index : Nat}

theorem row?_dropRow_forget (d : Dictionary α) (r index other : Nat) :
    ((d.dropRow r).forget index).row? other =
      if other = index then none
      else if (swapErase d.basic r)[r]?.join = some other then some r
      else d.row? other := by
  simp only [forget, row?, Places.position_clear, dropRow]
  cases hmoved : (swapErase d.basic r)[r]?.join with
  | none => simp
  | some moved =>
    simp only [Places.position_place, Option.some.injEq]
    by_cases hother : other = moved
    · simp [hother]
    · simp [hother, Ne.symm hother]

theorem column?_dropRow_forget (hindex : d.column? index = none) (other : Nat) :
    ((d.dropRow r).forget index).column? other = d.column? other := by
  simp only [forget, column?, Places.position_clear, dropRow]
  split
  · rename_i heq
    rw [heq]
    exact hindex.symm
  · rfl

theorem isSome_row?_dropRow_forget (h : d.IsConsistent) (hrow : d.row? index = some r)
    (other : Nat) :
    (((d.dropRow r).forget index).row? other).isSome ↔
      other ≠ index ∧ (d.row? other).isSome :=
  h.rows_agree.isSome_position_swapErase (h.row?_eq_some_iff.1 hrow).2
    (row?_dropRow_forget d r index) other

/-- Dropping a row together with its variable. -/
theorem IsConsistent.dropRow_forget (h : d.IsConsistent) (hrow : d.row? index = some r) :
    ((d.dropRow r).forget index).IsConsistent := by
  obtain ⟨hr, hbasic⟩ := h.row?_eq_some_iff.1 hrow
  have hcolumns := column?_dropRow_forget (r := r) (h.column?_of_row? hrow)
  have hbound : r < d.matrix.size := by
    rw [h.matrix_size]
    exact (mem_rows.1 hr).2
  have hheight : ((d.dropRow r).forget index).height = d.height - 1 := size_swapErase ..
  refine ⟨⟨?_, ?_, h.objective_size⟩, ⟨h.ascending, h.positive⟩, ?_, ?_, ?_⟩
  · rw [hheight, ← h.matrix_size]
    exact size_swapErase ..
  · intro i hi
    rw [hheight] at hi
    have hrowDrop := row_dropRow d hbound i
    rw [h.matrix_size, if_pos (by omega)] at hrowDrop
    refine (congrArg Array.size hrowDrop).trans ?_
    split
    · exact h.row_size _ (by omega)
    · exact h.row_size i (by omega)
  · exact h.rows_agree.swapErase (mem_rows.1 hr).1 hbasic (row?_dropRow_forget d r index)
  · exact h.columns_agree.of_position hcolumns
  · intro other
    refine (h.apart other).imp (fun hnone => ?_) (fun hnone => (hcolumns other).trans hnone)
    rw [← Option.not_isSome_iff_eq_none, isSome_row?_dropRow_forget h hrow, hnone]
    simp

theorem mentions_dropRow_forget (h : d.IsConsistent) (hrow : d.row? index = some r)
    (other : Nat) :
    ((d.dropRow r).forget index).Mentions other ↔ other ≠ index ∧ d.Mentions other := by
  have hindex := h.column?_of_row? hrow
  rw [Mentions, Mentions, isSome_row?_dropRow_forget h hrow, column?_dropRow_forget hindex]
  by_cases hother : other = index
  · simp [hother, hindex]
  · simp [hother]

theorem column?_dropColumn_forget (d : Dictionary α) (c index other : Nat) :
    ((d.dropColumn c).forget index).column? other =
      if other = index then none
      else if (swapErase d.nonBasic c)[c]?.join = some other then some c
      else d.column? other := by
  simp only [forget, column?, Places.position_clear, dropColumn]
  cases hmoved : (swapErase d.nonBasic c)[c]?.join with
  | none => simp
  | some moved =>
    simp only [Places.position_place, Option.some.injEq]
    by_cases hother : other = moved
    · simp [hother]
    · simp [hother, Ne.symm hother]

theorem row?_dropColumn_forget (hindex : d.row? index = none) (other : Nat) :
    ((d.dropColumn c).forget index).row? other = d.row? other := by
  simp only [forget, row?, Places.position_clear, dropColumn]
  split
  · rename_i heq
    rw [heq]
    exact hindex.symm
  · rfl

theorem isSome_column?_dropColumn_forget (h : d.IsConsistent)
    (hcolumn : d.column? index = some c) (other : Nat) :
    (((d.dropColumn c).forget index).column? other).isSome ↔
      other ≠ index ∧ (d.column? other).isSome :=
  h.columns_agree.isSome_position_swapErase (h.column?_eq_some_iff.1 hcolumn).2
    (column?_dropColumn_forget d c index) other

/-- Dropping a column together with its variable. -/
theorem IsConsistent.dropColumn_forget (h : d.IsConsistent)
    (hcolumn : d.column? index = some c) :
    ((d.dropColumn c).forget index).IsConsistent := by
  obtain ⟨hc, hnonBasic⟩ := h.column?_eq_some_iff.1 hcolumn
  have hrows := row?_dropColumn_forget (c := c) (h.row?_of_column? hcolumn)
  have hwidth : ((d.dropColumn c).forget index).width = d.width - 1 := size_swapErase ..
  refine ⟨⟨?_, ?_, ?_⟩, ⟨?_, ?_⟩, ?_, ?_, ?_⟩
  · exact (Array.size_map ..).trans h.matrix_size
  · intro i hi
    have hrowDrop := row_dropColumn d c (i := i) (by rw [h.matrix_size]; exact hi)
    refine (congrArg Array.size hrowDrop).trans ?_
    rw [hwidth, size_swapErase, h.row_size i hi]
  · intro objective hobjective
    obtain ⟨before, hbefore, rfl⟩ := List.mem_map.1 hobjective
    rw [hwidth, size_swapErase, h.objective_size before hbefore]
  · exact List.pairwise_map.2 h.ascending
  · intro objective hobjective
    obtain ⟨before, hbefore, rfl⟩ := List.mem_map.1 hobjective
    exact h.positive before hbefore
  · exact h.rows_agree.of_position hrows
  · exact h.columns_agree.swapErase (mem_columns.1 hc).1 hnonBasic
      (column?_dropColumn_forget d c index)
  · intro other
    refine (h.apart other).imp (fun hnone => (hrows other).trans hnone) (fun hnone => ?_)
    rw [← Option.not_isSome_iff_eq_none, isSome_column?_dropColumn_forget h hcolumn, hnone]
    simp

theorem mentions_dropColumn_forget (h : d.IsConsistent) (hcolumn : d.column? index = some c)
    (other : Nat) :
    ((d.dropColumn c).forget index).Mentions other ↔ other ≠ index ∧ d.Mentions other := by
  have hindex := h.row?_of_column? hcolumn
  rw [Mentions, Mentions, isSome_column?_dropColumn_forget h hcolumn,
    row?_dropColumn_forget hindex]
  by_cases hother : other = index
  · simp [hother, hindex]
  · simp [hother]

end Shrinkage

end MixedInteger.Dictionary
