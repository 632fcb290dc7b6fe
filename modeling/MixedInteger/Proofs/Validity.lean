import MixedInteger.Model
import MixedInteger.Proofs.Arena

/-!
# What the check of a model accepts

The check of a tableau walks over rows, columns and variables and stops at the first
fault.  It accepts exactly the tableaus whose rows have the full width, whose tables
agree and whose known variables all stand somewhere; the check of a model asks the
same of its tableau, and a place for every variable and every constraint.
-/

namespace MixedInteger

theorem bind_eq_ok_iff {ε : Type} {first next : Except ε Unit} :
    (first >>= fun _ => next) = .ok () ↔ first = .ok () ∧ next = .ok () := by
  cases first with
  | ok result => exact ⟨fun hnext => ⟨rfl, hnext⟩, fun hboth => hboth.2⟩
  | error fault => exact ⟨fun hbind => absurd hbind (by simp [bind, Except.bind]), by simp⟩

namespace Tableau

variable {α : Type}

theorem checkAll_eq_ok_iff {β : Type} {check : β → Option Cause} {items : List β} :
    checkAll check items = .ok () ↔ ∀ item ∈ items, check item = none := by
  unfold checkAll
  rw [← List.findSome?_eq_none_iff]
  cases items.findSome? check <;> simp

theorem checkRowLength_eq_none_iff {d : Dictionary α} {entry : Array α × Nat} :
    checkRowLength d entry = none ↔ entry.1.size = d.width := by
  simp [checkRowLength]

theorem checkBasic_eq_none_iff {d : Dictionary α} {r : Nat} :
    checkBasic d r = none ↔
      ∃ index, d.basicAt r = some index ∧ d.row? index = some r ∧ d.column? index = none := by
  unfold checkBasic
  cases d.basicAt r <;> simp

theorem checkNonBasic_eq_none_iff {d : Dictionary α} {c : Nat} :
    checkNonBasic d c = none ↔
      ∃ index, d.nonBasicAt c = some index ∧ d.column? index = some c ∧
        d.row? index = none := by
  unfold checkNonBasic
  cases d.nonBasicAt c <;> simp

theorem checkPlaced_eq_none_iff {t : Tableau α} {index : Nat} :
    t.checkPlaced index = none ↔
      ((t.lookup? index).isSome → t.dictionary.Mentions index) := by
  rw [← isPlaced_iff]
  simp [checkPlaced]

/-- Every row of the matrix passes the check of its length exactly if all of them
have the full width. -/
theorem checkRowLengths_iff {d : Dictionary α} (hsize : d.matrix.size = d.height) :
    (∀ entry ∈ d.matrix.toList.zipIdx, checkRowLength d entry = none) ↔
      ∀ r < d.height, (d.row r).size = d.width := by
  constructor
  · intro hall r hr
    have hbound : r < d.matrix.toList.length := by
      rw [Array.length_toList, hsize]
      exact hr
    have hmem : (d.matrix.toList[r], r) ∈ d.matrix.toList.zipIdx := by
      rw [List.mem_zipIdx_iff_getElem?]
      exact List.getElem?_eq_getElem hbound
    have hrow : d.row r = d.matrix.toList[r] := by
      rw [Dictionary.row_eq, ← Array.getElem?_toList, List.getElem?_eq_getElem hbound]
      rfl
    rw [hrow]
    exact checkRowLength_eq_none_iff.1 (hall _ hmem)
  · intro hall entry hentry
    rw [List.mem_zipIdx_iff_getElem?, Array.getElem?_toList] at hentry
    have hrow : d.row entry.2 = entry.1 := by
      rw [Dictionary.row_eq, hentry]
      rfl
    have hbound : entry.2 < d.height := by
      rw [← hsize]
      exact (Array.getElem?_eq_some_iff.1 hentry).1
    rw [checkRowLength_eq_none_iff, ← hrow]
    exact hall _ hbound

/-- The check accepts a tableau exactly if its basis is in order. -/
theorem validate_eq_ok_iff (t : Tableau α) :
    t.validate = .ok () ↔
      t.dictionary.matrix.size = t.dictionary.height ∧
        (∀ r < t.dictionary.height, (t.dictionary.row r).size = t.dictionary.width) ∧
        t.dictionary.IsNamed ∧
        ∀ index, (t.lookup? index).isSome → t.dictionary.Mentions index := by
  have hplaced : (∀ index ∈ List.range t.arena.size, t.checkPlaced index = none) ↔
      ∀ index, (t.lookup? index).isSome → t.dictionary.Mentions index := by
    constructor
    · intro hall index hindex
      have hbound : index < t.arena.size := by
        apply Nat.lt_of_not_le
        intro hle
        rw [lookup?_eq_none_of_le hle] at hindex
        exact absurd hindex (by simp)
      exact checkPlaced_eq_none_iff.1 (hall index (List.mem_range.2 hbound)) hindex
    · intro hall index _
      exact checkPlaced_eq_none_iff.2 (hall index)
  have hnamed : t.dictionary.IsNamed ↔
      (∀ r ∈ t.dictionary.rows, checkBasic t.dictionary r = none) ∧
        ∀ c ∈ t.dictionary.columns, checkNonBasic t.dictionary c = none := by
    constructor
    · intro h
      exact ⟨fun r hr => checkBasic_eq_none_iff.2 (h.basic_placed r hr),
        fun c hc => checkNonBasic_eq_none_iff.2 (h.nonBasic_placed c hc)⟩
    · rintro ⟨hrows, hcolumns⟩
      exact ⟨fun r hr => checkBasic_eq_none_iff.1 (hrows r hr),
        fun c hc => checkNonBasic_eq_none_iff.1 (hcolumns c hc)⟩
  have hvalidate : t.validate = .ok () ↔
      t.dictionary.matrix.size = t.dictionary.height ∧
        (∀ entry ∈ t.dictionary.matrix.toList.zipIdx,
          checkRowLength t.dictionary entry = none) ∧
        (∀ r ∈ t.dictionary.rows, checkBasic t.dictionary r = none) ∧
        (∀ c ∈ t.dictionary.columns, checkNonBasic t.dictionary c = none) ∧
        ∀ index ∈ List.range t.arena.size, t.checkPlaced index = none := by
    simp only [← checkAll_eq_ok_iff]
    rw [← bind_eq_ok_iff, ← bind_eq_ok_iff, ← bind_eq_ok_iff]
    by_cases hsize : t.dictionary.matrix.size = t.dictionary.height
    · simp [validate, hsize]
    · simp [validate, hsize, bind, Except.bind]
  rw [hvalidate, hnamed, hplaced, and_assoc]
  constructor
  · rintro ⟨hsize, hlengths, hrest⟩
    exact ⟨hsize, (checkRowLengths_iff hsize).1 hlengths, hrest⟩
  · rintro ⟨hsize, hlengths, hrest⟩
    exact ⟨hsize, (checkRowLengths_iff hsize).2 hlengths, hrest⟩

/-- Sound tableaus pass the check. -/
theorem IsSound.validate {t : Tableau α} (h : t.IsSound) : t.validate = .ok () :=
  (validate_eq_ok_iff t).2 ⟨h.consistent.matrix_size, h.consistent.row_size,
    h.consistent.isNamed, fun index hindex => (h.mentions_iff index).2 hindex⟩

/-- A tableau that passes the check has a basis, if the secondary objectives have the
full width as well. -/
theorem hasBasis_of_validate {t : Tableau α} (hvalidate : t.validate = .ok ())
    (hsecondary : ∀ objective ∈ t.dictionary.secondary,
      objective.reducedCosts.size = t.dictionary.width) : t.dictionary.HasBasis := by
  obtain ⟨hsize, hrows, hnamed, -⟩ := (validate_eq_ok_iff t).1 hvalidate
  exact ⟨⟨hsize, hrows, hsecondary⟩, hnamed⟩

end Tableau

namespace Model

variable {α : Type}

/-- The check accepts a model with a loaded tableau exactly if it accepts the tableau
and every variable and constraint stands in it. -/
theorem validate_eq_ok_iff {model : Model α} (hloaded : model.isLoaded = true) :
    model.validate = .ok () ↔
      model.tableau.validate = .ok () ∧
        (∀ index ∈ model.indices, model.tableau.dictionary.Mentions index) ∧
        ∀ slack ∈ model.constraints.keys, model.tableau.dictionary.Mentions slack := by
  have hvalidate : model.validate = (model.tableau.validate >>= fun _ =>
      Tableau.checkAll (fun index => if model.tableau.isPlaced index then none
        else some (.variableMissing index)) model.indices >>= fun _ =>
      Tableau.checkAll (fun index => if model.tableau.isPlaced index then none
        else some (.constraintMissing index)) model.constraints.keys) := by
    rw [validate, hloaded]
    rfl
  rw [hvalidate, bind_eq_ok_iff, bind_eq_ok_iff, Tableau.checkAll_eq_ok_iff,
    Tableau.checkAll_eq_ok_iff]
  simp [Tableau.isPlaced_iff]

theorem validate_of_not_loaded {model : Model α} (hloaded : model.isLoaded = false) :
    model.validate = .ok () := by
  rw [validate, hloaded]
  rfl

end Model

end MixedInteger
