import MixedInteger.Proofs.ObjectiveRows
import MixedInteger.Proofs.Outcome
import MixedInteger.Proofs.TableauEdits
import MixedInteger.Tableau.Load

/-!
# The tableau of a model

Loading writes the variables into columns and then the constraints into rows.
`IsLoadedWith` describes the dictionary after some of both: which names stand where
and what every entry is.  Each step of the loops adds one more variable or one more
constraint, so a loaded dictionary is consistent and all its entries are known.
-/

namespace MixedInteger

/-! ## Tables that are being filled -/

/-- A table of names that has been filled, behind position zero, with a list. -/
structure Lists (names : Array (Option Nat)) (places : Places) (done : List Nat) : Prop where
  name_eq : ∀ p, names[p + 1]?.join = done[p]?
  position_eq_some_iff : ∀ {index p}, places.position index = some p ↔
    ∃ q, p = q + 1 ∧ done[q]? = some index

namespace Lists

variable {names : Array (Option Nat)} {places places' : Places} {done : List Nat} {index : Nat}

theorem nil (size slots : Nat) :
    Lists (Array.replicate size none) ⟨Array.replicate slots none⟩ [] := by
  constructor
  · intro p
    rw [Array.getElem?_replicate]
    split <;> rfl
  · intro index p
    have hposition : Places.position ⟨Array.replicate slots none⟩ index = none := by
      rw [Places.position, Array.getElem?_replicate]
      split <;> rfl
    simp [hposition]

theorem position_eq_none (h : Lists names places done) (hindex : index ∉ done) :
    places.position index = none := by
  cases hposition : places.position index with
  | none => rfl
  | some p =>
    obtain ⟨q, -, hq⟩ := h.position_eq_some_iff.1 hposition
    exact absurd (List.mem_of_getElem? hq) hindex

theorem exists_position (h : Lists names places done) (hindex : index ∈ done) :
    ∃ p, places.position index = some (p + 1) ∧ done[p]? = some index := by
  obtain ⟨p, hp⟩ := List.getElem?_of_mem hindex
  exact ⟨p, h.position_eq_some_iff.2 ⟨p, rfl, hp⟩, hp⟩

theorem isSome_position_iff (h : Lists names places done) (index : Nat) :
    (places.position index).isSome ↔ index ∈ done := by
  constructor
  · intro hsome
    apply Decidable.byContradiction
    intro hindex
    rw [h.position_eq_none hindex] at hsome
    exact absurd hsome (by simp)
  · intro hindex
    obtain ⟨p, hp, -⟩ := h.exists_position hindex
    rw [hp]
    rfl

theorem of_position (h : Lists names places done)
    (hplaces : ∀ index, places'.position index = places.position index) :
    Lists names places' done := by
  refine ⟨h.name_eq, ?_⟩
  intro index p
  rw [hplaces, h.position_eq_some_iff]

/-- Taking away the position of a name that has none. -/
theorem clear (h : Lists names places done) (hindex : index ∉ done) :
    Lists names (places.clear index) done := by
  apply h.of_position
  intro other
  rw [Places.position_clear]
  split
  · rename_i heq
    rw [heq, h.position_eq_none hindex]
  · rfl

/-- The next name of the list. -/
theorem place (h : Lists names places done) (hbound : done.length + 1 < names.size)
    (hindex : index ∉ done) :
    Lists (names.setIfInBounds (done.length + 1) (some index))
      (places.place index (done.length + 1)) (done ++ [index]) := by
  constructor
  · intro p
    rw [Dictionary.getElem?_join_setIfInBounds hbound, List.getElem?_append, h.name_eq]
    by_cases hp : p = done.length
    · simp [hp]
    · rw [if_neg (by omega)]
      by_cases hlt : p < done.length
      · rw [if_pos hlt]
      · rw [if_neg hlt, List.getElem?_eq_none (by omega), List.getElem?_eq_none]
        simp only [List.length_singleton]
        omega
  · intro other p
    rw [Places.position_place]
    by_cases hother : other = index
    · subst hother
      rw [if_pos rfl, Option.some.injEq]
      constructor
      · intro hp
        exact ⟨done.length, hp.symm, by simp⟩
      · rintro ⟨q, rfl, hq⟩
        rcases Nat.lt_or_ge q done.length with hlt | hge
        · rw [List.getElem?_append_left hlt] at hq
          exact absurd (List.mem_of_getElem? hq) hindex
        · have hlast : q < (done ++ [other]).length := (List.getElem?_eq_some_iff.1 hq).1
          rw [List.length_append, List.length_singleton] at hlast
          omega
    · rw [if_neg hother, h.position_eq_some_iff]
      have hsame (q : Nat) : (done ++ [index])[q]? = some other ↔ done[q]? = some other := by
        rcases Nat.lt_or_ge q done.length with hlt | hge
        · rw [List.getElem?_append_left hlt]
        · rw [List.getElem?_append_right hge, List.getElem?_eq_none hge]
          cases hq : q - done.length with
          | zero => simp [Ne.symm hother]
          | succ n => simp
      simp only [hsame]

theorem agrees (h : Lists names places done) (hsize : names.size = done.length + 1) :
    Dictionary.Agrees names places := by
  refine ⟨by omega, ?_, ?_⟩
  · intro p hpos hp
    obtain ⟨q, rfl⟩ : ∃ q, p = q + 1 := ⟨p - 1, by omega⟩
    have hq : q < done.length := by omega
    exact ⟨done[q], by rw [h.name_eq, List.getElem?_eq_getElem hq]⟩
  · intro index p
    rw [h.position_eq_some_iff]
    constructor
    · rintro ⟨q, rfl, hq⟩
      exact ⟨Nat.succ_pos q, (h.name_eq q).trans hq⟩
    · rintro ⟨hpos, hname⟩
      obtain ⟨q, rfl⟩ : ∃ q, p = q + 1 := ⟨p - 1, by omega⟩
      exact ⟨q, rfl, (h.name_eq q).symm.trans hname⟩

end Lists

/-! ## The dictionary while a model is loaded -/

namespace Tableau

variable {α : Type} [Scalar α]

/-- The reduced cost that loading writes for a column. -/
def loadedCost (known : Nat → Option (Variable α)) (minimises : Bool) (indices : List Nat)
    (priority : Priority) : Nat → α
  | 0 => 0
  | p + 1 =>
    match indices[p]?.bind known with
    | some data =>
      if priority.level = data.priority.level then (if minimises then -1 else 1) * data.cost
      else 0
    | none => 0

def loadedEntry (indices : List Nat) (constraint : Constraint α) : Nat → α
  | 0 => constraint.sign * constraint.rhs
  | p + 1 =>
    match indices[p]?.bind constraint.coefficientOf? with
    | some coefficient => constraint.sign * coefficient
    | none => 0

/-- A dictionary of a given size that holds some of the variables and some of the
constraints of a model. -/
structure IsLoadedWith (known : Nat → Option (Variable α)) (minimises : Bool)
    (height width : Nat) (indices : List Nat) (constraints : List (Constraint α))
    (d : Dictionary α) : Prop
    extends d.IsRectangular, d.IsRanked where
  height_eq : d.height = height
  width_eq : d.width = width
  columns_list : Lists d.nonBasic d.columnOf indices
  rows_list : Lists d.basic d.rowOf (constraints.map Constraint.slack)
  entry_eq : ∀ r c, d.entry (r + 1) c =
    match constraints[r]? with
    | some constraint => loadedEntry indices constraint c
    | none => 0
  cost_eq : ∀ priority c, Dictionary.entryOf (d.objectiveRow priority) c =
    loadedCost known minimises indices priority c

/-- The dictionary with which loading begins. -/
theorem isLoadedWith_clearTo (known : Nat → Option (Variable α)) (t : Tableau α)
    (minimises : Bool) (height width : Nat) :
    IsLoadedWith known minimises height width [] [] (t.clearTo height width).dictionary := by
  have hrow {r : Nat} (hr : r < height) :
      (t.clearTo height width).dictionary.row r = Array.replicate width 0 := by
    rw [Dictionary.row_eq, clearTo]
    simp [hr]
  have hentry (r c : Nat) : (t.clearTo height width).dictionary.entry r c = 0 := by
    rw [Dictionary.entry]
    by_cases hr : r < height
    · rw [hrow hr]
      exact Dictionary.entryOf_replicate_zero width c
    · rw [Dictionary.row_of_matrix_size_le]
      · exact Dictionary.entryOf_of_size_le (Nat.zero_le c)
      · simp only [clearTo, Array.size_replicate]
        omega
  have hheight' : (t.clearTo height width).dictionary.height = height := Array.size_replicate
  have hwidth : (t.clearTo height width).dictionary.width = width := Array.size_replicate
  refine ⟨⟨?_, ?_, ?_⟩, ⟨List.Pairwise.nil, ?_⟩, hheight', hwidth, Lists.nil .., Lists.nil ..,
    ?_, ?_⟩
  · rw [hheight']
    exact Array.size_replicate
  · intro r hr
    rw [hheight'] at hr
    rw [hrow hr, hwidth]
    exact Array.size_replicate
  · intro objective hobjective
    exact absurd hobjective List.not_mem_nil
  · intro objective hobjective
    exact absurd hobjective List.not_mem_nil
  · intro r c
    exact hentry (r + 1) c
  · intro priority c
    have hzero : Dictionary.entryOf ((t.clearTo height width).dictionary.objectiveRow priority)
        c = 0 := by
      unfold Dictionary.objectiveRow
      split
      · exact hentry 0 c
      · exact Dictionary.entryOf_replicate_zero ..
    rw [hzero]
    cases c <;> rfl

/-! ## Loading the columns -/

def withColumn (d : Dictionary α) (index column : Nat) (priority : Priority) (cost : α) :
    Dictionary α :=
  let d := d.modifyObjective priority fun row => row.setIfInBounds column cost
  { d with
    nonBasic := d.nonBasic.setIfInBounds column (some index)
    rowOf := d.rowOf.clear index
    columnOf := d.columnOf.place index column }

theorem loadColumn_of_lookup? {t : Tableau α} {index : Nat} {data : Variable α}
    (hdata : t.lookup? index = some data) (minimises : Bool) (column : Nat) :
    loadColumn minimises index column t =
      .ok () (t.modifyDictionary fun d =>
        withColumn d index column data.priority ((if minimises then -1 else 1) * data.cost)) := by
  simp only [loadColumn, bind, EStateM.bind, run_get, hdata]
  rfl

theorem objectiveRow_of_names {d d' : Dictionary α} (hmatrix : d'.matrix = d.matrix)
    (hsecondary : d'.secondary = d.secondary) (hwidth : d'.width = d.width)
    (priority : Priority) : d'.objectiveRow priority = d.objectiveRow priority := by
  simp only [Dictionary.objectiveRow, Dictionary.row, hmatrix, hsecondary, hwidth]

section Columns

variable {known : Nat → Option (Variable α)} {minimises : Bool} {height width : Nat}
  {indices : List Nat}
  {d : Dictionary α} {index : Nat} {data : Variable α}

theorem loadedCost_append (hdata : known index = some data) (minimises : Bool)
    (indices : List Nat) (priority : Priority) (c : Nat) :
    loadedCost known minimises (indices ++ [index]) priority c =
      if c = indices.length + 1 then
        if priority.level = data.priority.level then (if minimises then -1 else 1) * data.cost
        else 0
      else loadedCost known minimises indices priority c := by
  cases c with
  | zero => rw [if_neg (by omega)]; rfl
  | succ p =>
    by_cases hp : p = indices.length
    · rw [if_pos (by omega), hp]
      simp [loadedCost, hdata]
    · rw [if_neg (by omega)]
      have hget : (indices ++ [index])[p]? = indices[p]? := by
        rcases Nat.lt_or_ge p indices.length with hlt | hge
        · exact List.getElem?_append_left hlt
        · rw [List.getElem?_eq_none hge, List.getElem?_eq_none]
          rw [List.length_append, List.length_singleton]
          omega
      simp only [loadedCost, hget]

theorem objectiveRow_withColumn (h : d.IsRanked) (hmatrix : 0 < d.matrix.size)
    (index column : Nat) (level : Priority) (cost : α) (priority : Priority) :
    (withColumn d index column level cost).objectiveRow priority =
      if priority.level = level.level then
        (d.objectiveRow priority).setIfInBounds column cost
      else d.objectiveRow priority := by
  have hmodify := Dictionary.objectiveRow_modifyObjective h hmatrix level
    (fun row => row.setIfInBounds column cost) priority
  apply Eq.trans _ hmodify
  apply objectiveRow_of_names
  · rfl
  · rfl
  · simp [withColumn, Dictionary.width]

/-- One more variable. -/
theorem IsLoadedWith.withColumn
    (h : IsLoadedWith known minimises height width indices ([] : List (Constraint α)) d)
    (hheight : 0 < height) (hbound : indices.length + 1 < width) (hindex : index ∉ indices)
    (hdata : known index = some data) :
    IsLoadedWith known minimises height width (indices ++ [index]) []
      (withColumn d index (indices.length + 1) data.priority
        ((if minimises then -1 else 1) * data.cost)) := by
  have hmatrix : 0 < d.matrix.size := by
    rw [h.matrix_size, h.height_eq]
    exact hheight
  have hsize (row : Array α) (hrow : row.size = d.width) :
      (row.setIfInBounds (indices.length + 1)
        ((if minimises then -1 else 1) * data.cost)).size = d.width :=
    (Array.size_setIfInBounds ..).trans hrow
  have hrect := h.toIsRectangular.modifyObjective data.priority hsize
  have hranked := h.toIsRanked.modifyObjective data.priority fun row =>
    row.setIfInBounds (indices.length + 1) ((if minimises then -1 else 1) * data.cost)
  have hwidth : (Tableau.withColumn d index (indices.length + 1) data.priority
      ((if minimises then -1 else 1) * data.cost)).width = d.width := by
    simp [Tableau.withColumn, Dictionary.width]
  have hheight' : (Tableau.withColumn d index (indices.length + 1) data.priority
      ((if minimises then -1 else 1) * data.cost)).height = d.height := by
    simp [Tableau.withColumn, Dictionary.height]
  refine ⟨⟨?_, ?_, ?_⟩, ⟨hranked.ascending, hranked.positive⟩, hheight'.trans h.height_eq,
    hwidth.trans h.width_eq, ?_, ?_, ?_, ?_⟩
  · have hmatrix' := hrect.matrix_size
    rw [Dictionary.height, Dictionary.basic_modifyObjective] at hmatrix'
    exact hmatrix'.trans hheight'.symm
  · intro r hr
    rw [hheight', Dictionary.height] at hr
    have hrow := hrect.row_size r
      (by rw [Dictionary.height, Dictionary.basic_modifyObjective]; exact hr)
    rw [Dictionary.width, Dictionary.nonBasic_modifyObjective] at hrow
    exact hrow.trans hwidth.symm
  · intro objective hobjective
    have hrow := hrect.objective_size objective hobjective
    rw [Dictionary.width, Dictionary.nonBasic_modifyObjective] at hrow
    exact hrow.trans hwidth.symm
  · have hplace := h.columns_list.place (by rw [← Dictionary.width, h.width_eq]; exact hbound)
      hindex
    simpa [Tableau.withColumn] using hplace
  · have hclear : Lists d.basic (d.rowOf.clear index) [] := h.rows_list.clear List.not_mem_nil
    simpa [Tableau.withColumn] using hclear
  · intro r c
    have hrow : (Tableau.withColumn d index (indices.length + 1) data.priority
        ((if minimises then -1 else 1) * data.cost)).row (r + 1) = d.row (r + 1) :=
      Dictionary.row_modifyObjective data.priority _ (Nat.succ_pos r)
    rw [Dictionary.entry, hrow]
    exact h.entry_eq r c
  · intro priority c
    have hrowSize := Dictionary.size_objectiveRow h.toIsRectangular
      (by rw [h.height_eq]; exact hheight) priority
    rw [objectiveRow_withColumn h.toIsRanked hmatrix, loadedCost_append hdata]
    by_cases hlevel : priority.level = data.priority.level
    · rw [if_pos hlevel, if_pos hlevel, Dictionary.entryOf_setIfInBounds, h.cost_eq]
      rw [hrowSize, h.width_eq]
      exact hbound
    · rw [if_neg hlevel, if_neg hlevel, h.cost_eq]
      split
      · rename_i hc
        rw [hc]
        simp [loadedCost]
      · rfl

/-- Loading the columns writes all variables. -/
theorem forM_loadColumn {t : Tableau α} (hheight : 0 < height) (indices : List Nat)
    {rest : List Nat}
    (hknown : ∀ index ∈ rest, (t.lookup? index).isSome)
    (hnodup : (indices ++ rest).Nodup) (hbound : indices.length + rest.length + 1 = width)
    (h : IsLoadedWith t.lookup? minimises height width indices ([] : List (Constraint α)) d) :
    ∃ d', ((rest.zipIdx (indices.length + 1)).forM fun (index, column) =>
          loadColumn minimises index column : Action α PUnit) { t with dictionary := d } =
        .ok ⟨⟩ { t with dictionary := d' } ∧
      IsLoadedWith t.lookup? minimises height width (indices ++ rest)
        ([] : List (Constraint α)) d' := by
  induction rest generalizing indices d with
  | nil =>
    rw [List.append_nil]
    exact ⟨d, rfl, h⟩
  | cons index rest ih =>
    obtain ⟨hfirst, hrest⟩ := List.forall_mem_cons.1 hknown
    obtain ⟨data, hdata⟩ := Option.isSome_iff_exists.1 hfirst
    have hindex : index ∉ indices := by
      intro hmem
      exact (List.nodup_append.1 hnodup).2.2 index hmem index List.mem_cons_self rfl
    have hbound' : indices.length + 1 < width := by
      rw [List.length_cons] at hbound
      omega
    have hstep := h.withColumn hheight hbound' hindex hdata
    have happend : indices ++ index :: rest = (indices ++ [index]) ++ rest := by simp
    rw [happend] at hnodup ⊢
    obtain ⟨d', hload, hd'⟩ := ih (indices ++ [index]) hrest hnodup
      (by rw [List.length_append, List.length_singleton, ← hbound, List.length_cons]; omega) hstep
    refine ⟨d', ?_, hd'⟩
    rw [List.length_append, List.length_singleton] at hload
    rw [← hload, List.zipIdx_cons]
    apply forM_cons_of_ok
    exact loadColumn_of_lookup? (t := { t with dictionary := d }) hdata minimises _

end Columns

/-! ## Loading the rows -/

def writeTerms (d : Dictionary α) (sign : α) (terms : List (Term α)) (row : Array α) : Array α :=
  terms.foldl
    (fun row term => match d.column? term.index with
      | some column => row.setIfInBounds column (sign * term.coefficient)
      | none => row) row

theorem size_writeTerms (d : Dictionary α) (sign : α) (terms : List (Term α)) (row : Array α) :
    (writeTerms d sign terms row).size = row.size := by
  unfold writeTerms
  induction terms generalizing row with
  | nil => rfl
  | cons term rest ih =>
    rw [List.foldl_cons, ih]
    split
    · exact Array.size_setIfInBounds ..
    · rfl

/-- Terms on different columns: every entry is written at most once. -/
theorem entryOf_writeTerms {d : Dictionary α} {sign : α} {terms : List (Term α)}
    {row : Array α}
    (hbound : ∀ term ∈ terms, ∀ c, d.column? term.index = some c → c < row.size)
    (happart : terms.Pairwise fun left right => ∀ c, d.column? left.index = some c →
      d.column? right.index ≠ some c) (c : Nat) :
    Dictionary.entryOf (writeTerms d sign terms row) c =
      match terms.find? fun term => d.column? term.index == some c with
      | some term => sign * term.coefficient
      | none => Dictionary.entryOf row c := by
  induction terms generalizing row with
  | nil => rfl
  | cons term rest ih =>
    obtain ⟨hterm, hrest⟩ := List.forall_mem_cons.1 hbound
    obtain ⟨hfirst, hlater⟩ := List.pairwise_cons.1 happart
    have hwrite : writeTerms d sign (term :: rest) row =
        writeTerms d sign rest (match d.column? term.index with
          | some column => row.setIfInBounds column (sign * term.coefficient)
          | none => row) := rfl
    rw [hwrite, List.find?_cons]
    cases hcolumn : d.column? term.index with
    | none => exact ih hrest hlater
    | some column =>
      rw [ih (fun later hmem => by rw [Array.size_setIfInBounds]; exact hrest later hmem) hlater,
        Dictionary.entryOf_setIfInBounds (hterm column hcolumn)]
      by_cases hc : column = c
      · subst hc
        have hnone : (rest.find? fun term => d.column? term.index == some column) = none := by
          rw [List.find?_eq_none]
          intro later hmem hsome
          exact hfirst later hmem column hcolumn (beq_iff_eq.1 hsome)
        simp [hnone]
      · have hbeq : (some column == some c) = false := by simpa using hc
        rw [hbeq, if_neg (Ne.symm hc)]

theorem modifyRow_modifyRow {β : Type} (d : Dictionary β) (r : Nat)
    (first second : Array β → Array β) :
    (d.modifyRow r first).modifyRow r second = d.modifyRow r (second ∘ first) := by
  simp only [Dictionary.modifyRow]
  congr 1
  apply Array.ext_getElem?
  intro i
  simp only [Array.getElem?_modify]
  split
  · rw [Option.map_map]
  · rfl

theorem modifyRow_id {β : Type} (d : Dictionary β) (r : Nat) : d.modifyRow r id = d := by
  have hmatrix : d.matrix.modify r id = d.matrix := by
    apply Array.ext_getElem?
    intro i
    rw [Array.getElem?_modify]
    split
    · simp
    · rfl
  rw [Dictionary.modifyRow, hmatrix]

/-- The terms of a constraint all find their columns. -/
theorem forM_loadTerm {t : Tableau α} {terms : List (Term α)}
    (hterms : ∀ term ∈ terms, (t.dictionary.column? term.index).isSome) (slack r : Nat)
    (sign : α) :
    terms.forM (loadTerm slack r sign) t =
      .ok () (t.modifyDictionary fun d => d.modifyRow r (writeTerms d sign terms)) := by
  induction terms generalizing t with
  | nil =>
    have hsame : (t.modifyDictionary fun d => d.modifyRow r (writeTerms d sign [])) = t := by
      have hid : (fun d : Dictionary α => d.modifyRow r (writeTerms d sign [])) = id := by
        funext d
        exact modifyRow_id d r
      rw [hid]
      rfl
    rw [hsame]
    rfl
  | cons term rest ih =>
    obtain ⟨hterm, hrest⟩ := List.forall_mem_cons.1 hterms
    obtain ⟨column, hcolumn⟩ := Option.isSome_iff_exists.1 hterm
    have hload : loadTerm slack r sign term t = .ok () (t.modifyDictionary fun d =>
        d.modifyRow r fun row => row.setIfInBounds column (sign * term.coefficient)) := by
      simp only [loadTerm, bind, EStateM.bind, run_get, hcolumn]
      rfl
    have hlater := ih (t := t.modifyDictionary fun d =>
      d.modifyRow r fun row => row.setIfInBounds column (sign * term.coefficient)) hrest
    rw [forM_cons_of_ok hload, hlater]
    simp only [modifyDictionary, modifyRow_modifyRow]
    congr 3
    funext row
    simp only [Function.comp, writeTerms, List.foldl_cons, hcolumn]
    rfl

def withSlack {β : Type} (d : Dictionary β) (slack r : Nat) : Dictionary β :=
  { d with
    basic := d.basic.setIfInBounds r (some slack)
    rowOf := d.rowOf.place slack r
    columnOf := d.columnOf.clear slack }

def withRow (d : Dictionary α) (constraint : Constraint α) (r : Nat) : Dictionary α :=
  (withSlack d constraint.slack r).modifyRow r fun row =>
    (writeTerms (withSlack d constraint.slack r) constraint.sign constraint.terms
      row).setIfInBounds 0 (constraint.sign * constraint.rhs)

theorem loadRow_eq {t : Tableau α} {constraint : Constraint α} {r : Nat}
    (hterms : ∀ term ∈ constraint.terms,
      ((withSlack t.dictionary constraint.slack r).column? term.index).isSome) :
    loadRow constraint r t =
      .ok () (t.modifyDictionary fun d => withRow d constraint r) := by
  let named := t.modifyDictionary fun d => withSlack d constraint.slack r
  have hnamed : loadRow constraint r t =
      (do
        constraint.terms.forM (loadTerm constraint.slack r constraint.sign)
        modify fun t => t.modifyDictionary fun d =>
          d.modifyRow r fun row => row.setIfInBounds 0 (constraint.sign * constraint.rhs) :
            Action α Unit) named := rfl
  have hload := forM_loadTerm (t := named) hterms constraint.slack r constraint.sign
  rw [hnamed, bind_of_ok hload]
  simp only [run_modify, modifyDictionary,
    modifyRow_modifyRow]
  rfl

section Rows

variable {known : Nat → Option (Variable α)} {minimises : Bool} {height width : Nat}
  {indices : List Nat}
  {constraints : List (Constraint α)} {d : Dictionary α} {constraint : Constraint α}

/-- What a constraint needs in order to be loaded: a slack of its own, and at most one
term for each of the declared variables. -/
structure IsLoadable (indices : List Nat) (constraint : Constraint α) : Prop where
  slack_not_mem : constraint.slack ∉ indices
  terms_mem : ∀ term ∈ constraint.terms, term.index ∈ indices
  terms_nodup : (constraint.terms.map Term.index).Nodup

omit [Scalar α] in
/-- The term that is written into a column is that of its variable. -/
theorem find?_column {places : Dictionary α}
    (hlist : Lists places.nonBasic places.columnOf indices) (terms : List (Term α)) (p : Nat) :
    (terms.find? fun term => places.column? term.index == some (p + 1)) =
      indices[p]?.bind fun index => terms.find? fun term => term.index == index := by
  have hcolumn (index : Nat) : places.column? index = some (p + 1) ↔
      indices[p]? = some index := by
    apply hlist.position_eq_some_iff.trans
    simp only [Nat.add_right_cancel_iff, exists_eq_left']
  cases hp : indices[p]? with
  | none =>
    rw [Option.bind_none, List.find?_eq_none]
    intro term _ hsome
    rw [beq_iff_eq, hcolumn, hp] at hsome
    exact absurd hsome (by simp)
  | some index =>
    rw [Option.bind_some]
    congr 1
    funext term
    rw [Bool.eq_iff_iff, beq_iff_eq, beq_iff_eq, hcolumn, hp, Option.some.injEq, eq_comm]

omit [Scalar α] in
/-- Different terms are written into different columns. -/
theorem IsLoadable.columns_apart {places : Dictionary α} (h : IsLoadable indices constraint)
    (hlist : Lists places.nonBasic places.columnOf indices) :
    constraint.terms.Pairwise fun left right =>
      ∀ c, places.column? left.index = some c → places.column? right.index ≠ some c := by
  apply (List.pairwise_map.1 h.terms_nodup).imp
  intro left right hne c hleft hright
  obtain ⟨p, rfl, hp⟩ := hlist.position_eq_some_iff.1 hleft
  obtain ⟨q, hq, hq'⟩ := hlist.position_eq_some_iff.1 hright
  obtain rfl : p = q := Nat.add_right_cancel hq
  rw [hp, Option.some.injEq] at hq'
  exact hne hq'

/-- The entries of the row that was written. -/
theorem entryOf_writeTerms_loaded {places : Dictionary α}
    (hloadable : IsLoadable indices constraint)
    (hlist : Lists places.nonBasic places.columnOf indices) {row : Array α}
    (hrow : row.size = indices.length + 1) (hzero : ∀ c, Dictionary.entryOf row c = 0)
    (c : Nat) :
    Dictionary.entryOf ((writeTerms places constraint.sign constraint.terms row).setIfInBounds 0
      (constraint.sign * constraint.rhs)) c = loadedEntry indices constraint c := by
  have hbound : ∀ term ∈ constraint.terms, ∀ c, places.column? term.index = some c →
      c < row.size := by
    intro term _ c hc
    obtain ⟨p, rfl, hp⟩ := hlist.position_eq_some_iff.1 hc
    have hlt := (List.getElem?_eq_some_iff.1 hp).1
    omega
  have hsize : 0 < (writeTerms places constraint.sign constraint.terms row).size := by
    rw [size_writeTerms]
    omega
  rw [Dictionary.entryOf_setIfInBounds hsize,
    entryOf_writeTerms hbound (hloadable.columns_apart hlist), hzero]
  cases c with
  | zero => rfl
  | succ p =>
    rw [if_neg (Nat.succ_ne_zero p), loadedEntry, find?_column hlist]
    cases indices[p]? with
    | none => rfl
    | some index =>
      rw [Option.bind_some, Option.bind_some, Constraint.coefficientOf?]
      cases constraint.terms.find? fun term => term.index == index <;> rfl

/-- One more constraint. -/
theorem IsLoadedWith.withRow
    (h : IsLoadedWith known minimises height width indices constraints d)
    (hwidth : indices.length + 1 = width) (hbound : constraints.length + 1 < height)
    (hslack : constraint.slack ∉ constraints.map Constraint.slack)
    (hloadable : IsLoadable indices constraint) :
    IsLoadedWith known minimises height width indices (constraints ++ [constraint])
      (withRow d constraint (constraints.length + 1)) := by
  have hlist : Lists d.nonBasic (d.columnOf.clear constraint.slack) indices :=
    h.columns_list.clear hloadable.slack_not_mem
  have hmatrix : constraints.length + 1 < d.matrix.size := by
    rw [h.matrix_size, h.height_eq]
    exact hbound
  have hheight' : (Tableau.withRow d constraint (constraints.length + 1)).height = d.height :=
    Array.size_setIfInBounds ..
  -- The written row and all the others.
  have hrow (r : Nat) : (Tableau.withRow d constraint (constraints.length + 1)).row r =
      if constraints.length + 1 = r ∧ r < d.matrix.size then
        (writeTerms (withSlack d constraint.slack (constraints.length + 1)) constraint.sign
          constraint.terms (d.row r)).setIfInBounds 0 (constraint.sign * constraint.rhs)
      else d.row r := Dictionary.row_modifyRow ..
  refine ⟨⟨?_, ?_, h.objective_size⟩, ⟨h.ascending, h.positive⟩, hheight'.trans h.height_eq,
    h.width_eq, hlist, ?_, ?_, ?_⟩
  · rw [hheight', ← h.matrix_size]
    exact Array.size_modify ..
  · intro r hr
    rw [hheight'] at hr
    have hwas := h.row_size r hr
    rw [hrow]
    split
    · rw [Array.size_setIfInBounds, size_writeTerms]
      exact hwas
    · exact hwas
  · have hplace := h.rows_list.place
      (by rw [List.length_map, ← Dictionary.height, h.height_eq]; exact hbound) hslack
    rw [List.length_map] at hplace
    rw [List.map_append]
    exact hplace
  · intro r c
    rw [Dictionary.entry, hrow]
    by_cases hr : r = constraints.length
    · rw [hr, if_pos ⟨rfl, hmatrix⟩, List.getElem?_append_right (Nat.le_refl _), Nat.sub_self]
      apply entryOf_writeTerms_loaded hloadable hlist
      · rw [h.row_size _ (by rw [← h.matrix_size]; exact hmatrix), h.width_eq, hwidth]
      · intro c
        have hentry := h.entry_eq constraints.length c
        rw [List.getElem?_eq_none (Nat.le_refl _)] at hentry
        exact hentry
    · have hother : ¬ (constraints.length + 1 = r + 1 ∧ r + 1 < d.matrix.size) := by omega
      rw [if_neg hother]
      refine (h.entry_eq r c).trans ?_
      rcases Nat.lt_or_ge r constraints.length with hlt | hge
      · rw [List.getElem?_append_left hlt]
      · rw [List.getElem?_eq_none hge, List.getElem?_eq_none]
        rw [List.length_append, List.length_singleton]
        omega
  · intro priority c
    have hzero : (Tableau.withRow d constraint (constraints.length + 1)).row 0 = d.row 0 := by
      rw [hrow, if_neg (by omega)]
    have hobjective :
        (Tableau.withRow d constraint (constraints.length + 1)).objectiveRow priority =
          d.objectiveRow priority := by
      rw [Dictionary.objectiveRow, Dictionary.objectiveRow, hzero]
      rfl
    rw [hobjective]
    exact h.cost_eq priority c

/-- Loading the rows writes all constraints. -/
theorem forM_loadRow {t : Tableau α} (hwidth : indices.length + 1 = width)
    (constraints : List (Constraint α)) {rest : List (Constraint α)}
    (hloadable : ∀ constraint ∈ rest, IsLoadable indices constraint)
    (hnodup : ((constraints ++ rest).map Constraint.slack).Nodup)
    (hbound : constraints.length + rest.length + 1 = height)
    (h : IsLoadedWith known minimises height width indices constraints d) :
    ∃ d', ((rest.zipIdx (constraints.length + 1)).forM fun (constraint, r) =>
          loadRow constraint r : Action α PUnit) { t with dictionary := d } =
        .ok ⟨⟩ { t with dictionary := d' } ∧
      IsLoadedWith known minimises height width indices (constraints ++ rest) d' := by
  induction rest generalizing constraints d with
  | nil =>
    rw [List.append_nil]
    exact ⟨d, rfl, h⟩
  | cons constraint rest ih =>
    obtain ⟨hfirst, hrest⟩ := List.forall_mem_cons.1 hloadable
    have happend : constraints ++ constraint :: rest = (constraints ++ [constraint]) ++ rest := by
      simp
    have hslack : constraint.slack ∉ constraints.map Constraint.slack := by
      rw [List.map_append] at hnodup
      intro hmem
      exact (List.nodup_append.1 hnodup).2.2 _ hmem _ List.mem_cons_self rfl
    have hbound' : constraints.length + 1 < height := by
      rw [List.length_cons] at hbound
      omega
    have hterms : ∀ term ∈ constraint.terms,
        ((withSlack d constraint.slack (constraints.length + 1)).column?
          term.index).isSome := by
      intro term hterm
      have hlist := h.columns_list.clear hfirst.slack_not_mem
      obtain ⟨p, hp, -⟩ := hlist.exists_position (hfirst.terms_mem term hterm)
      exact Option.isSome_iff_exists.2 ⟨p + 1, hp⟩
    have hstep := h.withRow hwidth hbound' hslack hfirst
    rw [happend] at hnodup ⊢
    obtain ⟨d', hload, hd'⟩ := ih (constraints ++ [constraint]) hrest hnodup
      (by rw [List.length_append, List.length_singleton, ← hbound, List.length_cons]; omega) hstep
    refine ⟨d', ?_, hd'⟩
    rw [List.length_append, List.length_singleton] at hload
    rw [← hload, List.zipIdx_cons]
    apply forM_cons_of_ok
    exact loadRow_eq (t := { t with dictionary := d }) hterms

end Rows

/-! ## The loaded tableau -/

section Loaded

variable {known : Nat → Option (Variable α)} {minimises : Bool} {indices : List Nat}
  {constraints : List (Constraint α)} {d : Dictionary α}

/-- A loaded dictionary holds the variables and the slacks and nothing else. -/
theorem IsLoadedWith.mentions_iff
    (h : IsLoadedWith known minimises (constraints.length + 1) (indices.length + 1) indices
      constraints d) (index : Nat) :
    d.Mentions index ↔ index ∈ indices ∨ index ∈ constraints.map Constraint.slack := by
  have hrows := h.rows_list.isSome_position_iff index
  have hcolumns := h.columns_list.isSome_position_iff index
  exact (or_congr hrows hcolumns).trans or_comm

theorem IsLoadedWith.isConsistent
    (h : IsLoadedWith known minimises (constraints.length + 1) (indices.length + 1) indices
      constraints d)
    (hloadable : ∀ constraint ∈ constraints, IsLoadable indices constraint) :
    d.IsConsistent := by
  refine ⟨h.toIsRectangular, h.toIsRanked, ?_, ?_, ?_⟩
  · apply h.rows_list.agrees
    rw [List.length_map]
    exact h.height_eq
  · exact h.columns_list.agrees h.width_eq
  · intro index
    by_cases hindex : index ∈ indices
    · apply Or.inl
      apply h.rows_list.position_eq_none
      intro hmem
      obtain ⟨constraint, hconstraint, rfl⟩ := List.mem_map.1 hmem
      exact (hloadable constraint hconstraint).slack_not_mem hindex
    · exact .inr (h.columns_list.position_eq_none hindex)

end Loaded

/-- A model whose parts fit together can be loaded, and the result is described entry
by entry. -/
theorem load_eq_ok {t : Tableau α} {indices : List Nat} {constraints : List (Constraint α)}
    (minimises : Bool) (hknown : ∀ index ∈ indices, (t.discardSearch.lookup? index).isSome)
    (hindices : indices.Nodup) (hslacks : (constraints.map Constraint.slack).Nodup)
    (hloadable : ∀ constraint ∈ constraints, IsLoadable indices constraint) :
    ∃ t', load indices constraints minimises t = .ok () t' ∧
      t'.precision = t.precision ∧ t'.snapshot = none ∧ t'.pool = t.discardSearch.pool ∧
      t'.arena = t.discardSearch.arena ∧
      IsLoadedWith t.discardSearch.lookup? minimises (constraints.length + 1) (indices.length + 1)
        indices constraints t'.dictionary := by
  let start := t.discardSearch.clearTo (constraints.length + 1) (indices.length + 1)
  have hstart : IsLoadedWith start.lookup? minimises (constraints.length + 1)
      (indices.length + 1) []
      [] start.dictionary := isLoadedWith_clearTo _ t.discardSearch minimises _ _
  obtain ⟨columns, hcolumns, hmiddle⟩ :=
    forM_loadColumn (t := start) (Nat.succ_pos _) [] hknown hindices
    (by simp) hstart
  obtain ⟨rows, hrows, hfinal⟩ :=
    forM_loadRow (t := start) rfl [] hloadable hslacks (by simp) hmiddle
  have hload : load indices constraints minimises t = .ok () { start with dictionary := rows } := by
    have hfirst : load indices constraints minimises t =
        (do
          (indices.zipIdx 1).forM fun (index, column) => loadColumn minimises index column
          (constraints.zipIdx 1).forM fun (constraint, r) => loadRow constraint r :
            Action α Unit) start := rfl
    rw [hfirst]
    exact (bind_of_ok hcolumns).trans hrows
  refine ⟨_, hload, precision_discardSearch t, rfl, rfl, rfl, ?_⟩
  exact hfinal

end Tableau

end MixedInteger
