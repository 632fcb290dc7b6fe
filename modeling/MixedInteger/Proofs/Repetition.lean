import Mathlib.Data.Finset.Basic
import Mathlib.Order.Bounds.Basic
import Mathlib.Order.Nat
import MixedInteger.PivotHistory

/-!
# Repeated blocks of pivots

The search for a repetition finds one exactly if there is one, and it finds the first.  The
scan of the lengths may end early, because a second round that does not fit rules out every
longer one.  Pivots are then seen as exchanges in the set of basic variables: the leaving
variable has to be in it and the entering one outside.  A block of pivots that can be made
twice in a row leads back to the set it started from, because the first pivot of the block
that touches a variable tells whether the variable was basic.
-/

namespace MixedInteger

namespace PivotHistory

variable {history : PivotHistory} {left right length start : Nat}

theorem agree_eq_true_iff :
    history.agree left right length = true ↔
      ∀ offset < length, history.pivots[left + offset]? = history.pivots[right + offset]? := by
  induction length generalizing left right with
  | zero => simp [agree]
  | succ length ih =>
    rw [agree, Bool.and_eq_true, beq_iff_eq, ih]
    constructor
    · rintro ⟨hfirst, hrest⟩ offset hoffset
      cases offset with
      | zero => exact hfirst
      | succ offset =>
        have hoffset' := hrest offset (by omega)
        rw [Nat.add_right_comm, Nat.add_right_comm right] at hoffset'
        exact hoffset'
    · intro hall
      refine ⟨hall 0 (by omega), ?_⟩
      intro offset hoffset
      rw [Nat.add_right_comm, Nat.add_right_comm right]
      exact hall (offset + 1) (by omega)

/-- The `length` pivots from `start` on are known and immediately repeated. -/
structure Repeats (history : PivotHistory) (start length : Nat) : Prop where
  length_pos : 0 < length
  within : start + 2 * length ≤ history.length
  equal : ∀ offset < length,
    history.pivots[start + offset]? = history.pivots[start + length + offset]?

/-! ## The scan of the lengths -/

/-- The tests of the scan, taken together, are those for a repetition: the first pivots of
the two rounds are compared on their own, and the others after the bound on the length. -/
theorem repeats_iff (hpos : 0 < length) :
    history.Repeats start length ↔
      history.pivots[start]? = history.pivots[start + length]? ∧
        length ≤ history.length - (start + length) ∧
        history.agree (start + 1) (start + length + 1) (length - 1) = true := by
  have hblock : history.agree start (start + length) length = true ↔
      history.pivots[start]? = history.pivots[start + length]? ∧
        history.agree (start + 1) (start + length + 1) (length - 1) = true := by
    obtain ⟨rest, rfl⟩ := Nat.exists_eq_add_of_lt hpos
    rw [agree, Bool.and_eq_true, beq_iff_eq]
    rfl
  rw [agree_eq_true_iff] at hblock
  constructor
  · intro h
    have hwithin := h.within
    obtain ⟨hfirst, hrest⟩ := hblock.1 h.equal
    exact ⟨hfirst, by omega, hrest⟩
  · rintro ⟨hfirst, hwithin, hrest⟩
    exact ⟨hpos, by omega, hblock.2 ⟨hfirst, hrest⟩⟩

/-- The lengths, from `shortest` on, of the repetitions that start at a given pivot. -/
def lengthsFrom (history : PivotHistory) (start shortest : Nat) : Set Nat :=
  {length | shortest ≤ length ∧ history.Repeats start length}

variable {shortest count : Nat}

theorem lengthsFrom_one :
    history.lengthsFrom start 1 = {length | history.Repeats start length} := by
  ext length
  exact ⟨fun h => h.2, fun h => ⟨h.length_pos, h⟩⟩

/-- A length that fails can be passed over. -/
theorem lengthsFrom_succ (h : ¬ history.Repeats start shortest) :
    history.lengthsFrom start (shortest + 1) = history.lengthsFrom start shortest := by
  ext length
  constructor
  · rintro ⟨hle, hrepeats⟩
    exact ⟨Nat.le_of_succ_le hle, hrepeats⟩
  · rintro ⟨hle, hrepeats⟩
    refine ⟨Nat.lt_of_le_of_ne hle ?_, hrepeats⟩
    rintro rfl
    exact h hrepeats

/-- Where a second round does not fit, no longer one does. -/
theorem lengthsFrom_eq_empty (h : history.length - (start + shortest) < shortest) :
    history.lengthsFrom start shortest = ∅ := by
  rw [Set.eq_empty_iff_forall_notMem]
  rintro length ⟨hle, hrepeats⟩
  have hwithin := hrepeats.within
  omega

/-- The scan finds the least length, although it ends early. -/
theorem scanLengths?_eq_some_iff (hpos : 0 < shortest)
    (hcount : history.length ≤ start + shortest + count) :
    history.scanLengths? start shortest count = some length ↔
      IsLeast (history.lengthsFrom start shortest) length := by
  -- By induction on the number of lengths that are left to try: a length that fails leaves
  -- the set of lengths as it is, and the scan ends early only where the set is empty.
  induction count generalizing shortest with
  | zero =>
    have hlate : history.length - (start + shortest) < shortest := by omega
    rw [lengthsFrom_eq_empty hlate]
    exact iff_of_false (by simp [scanLengths?]) fun h => h.1
  | succ count ih =>
    have hnext := ih (Nat.succ_pos shortest) (by omega)
    have hrepeats : history.Repeats start shortest ↔ _ := repeats_iff hpos
    rw [scanLengths?]
    split_ifs with hfirst hlate hrest
    · rw [hnext, lengthsFrom_succ fun h => hfirst (hrepeats.1 h).1]
    · rw [lengthsFrom_eq_empty hlate]
      exact iff_of_false (by simp) fun h => h.1
    · have hfound := hrepeats.2 ⟨not_not.1 hfirst, Nat.le_of_not_lt hlate, hrest⟩
      have hleast : IsLeast (history.lengthsFrom start shortest) shortest :=
        ⟨⟨le_rfl, hfound⟩, fun _ h => h.1⟩
      rw [Option.some.injEq]
      exact ⟨fun h => h ▸ hleast, hleast.unique⟩
    · rw [hnext, lengthsFrom_succ fun h => hrest (hrepeats.1 h).2.2]

theorem cycleFrom?_eq_some_iff {cycle : Cycle} :
    history.cycleFrom? start = some cycle ↔
      cycle.start = start ∧ IsLeast {length | history.Repeats start length} cycle.length := by
  have hscan (length : Nat) :
      history.scanLengths? start 1 (history.length - (start + 1)) = some length ↔
        IsLeast {length | history.Repeats start length} length := by
    rw [← lengthsFrom_one]
    exact scanLengths?_eq_some_iff Nat.one_pos (by omega)
  simp only [cycleFrom?, Option.map_eq_some_iff, hscan]
  constructor
  · rintro ⟨length, hleast, rfl⟩
    exact ⟨rfl, hleast⟩
  · rintro ⟨rfl, hleast⟩
    exact ⟨cycle.length, hleast, rfl⟩

theorem cycleFrom?_ne_none (h : history.Repeats start length) :
    history.cycleFrom? start ≠ none := by
  classical
  have hexists : ∃ length, history.Repeats start length := ⟨length, h⟩
  have hcycle : history.cycleFrom? start = some ⟨start, Nat.find hexists⟩ :=
    cycleFrom?_eq_some_iff.2 ⟨rfl, Nat.isLeast_find hexists⟩
  simp [hcycle]

/-! ## The first repetition -/

/-- A cycle that is found has the earliest start, and the least length from there. -/
theorem isLeast_of_findCycle {cycle : Cycle} (h : history.findCycle = some cycle) :
    IsLeast {start | ∃ length, history.Repeats start length} cycle.start ∧
      IsLeast {length | history.Repeats cycle.start length} cycle.length := by
  obtain ⟨before, first, after, hstarts, hcycle, hbefore⟩ := List.findSome?_eq_some_iff.1 h
  obtain ⟨rfl, hlength⟩ := cycleFrom?_eq_some_iff.1 hcycle
  refine ⟨⟨⟨cycle.length, hlength.1⟩, ?_⟩, hlength⟩
  rintro start ⟨length, hrepeats⟩
  by_contra hearlier
  -- The starts are tried in order, so an earlier one was tried in vain.
  have hsorted : (before ++ cycle.start :: after).Pairwise (· < ·) :=
    hstarts ▸ List.pairwise_lt_range
  have hstart : start ∈ before ++ cycle.start :: after := by
    have hpos := hrepeats.length_pos
    have hwithin := hrepeats.within
    rw [← hstarts, List.mem_range]
    omega
  have htried : start ∈ before := by
    rcases List.mem_append.1 hstart with htried | hlater
    · exact htried
    · have hafter := (List.pairwise_cons.1 (List.pairwise_append.1 hsorted).2.1).1
      rcases List.mem_cons.1 hlater with rfl | hlater
      · exact absurd le_rfl hearlier
      · exact absurd (hafter start hlater).le hearlier
  exact cycleFrom?_ne_none hrepeats (hbefore start htried)

/-- A cycle that is found is one. -/
theorem repeats_of_findCycle {cycle : Cycle} (h : history.findCycle = some cycle) :
    history.Repeats cycle.start cycle.length :=
  (isLeast_of_findCycle h).2.1

/-- A cycle that is there is not overlooked. -/
theorem findCycle_ne_none (h : history.Repeats start length) : history.findCycle ≠ none := by
  intro hnone
  have hpos := h.length_pos
  have hwithin := h.within
  have hstart := List.findSome?_eq_none_iff.1 hnone start (List.mem_range.2 (by omega))
  exact cycleFrom?_ne_none h hstart

theorem findCycle_isSome_iff :
    history.findCycle.isSome ↔ ∃ start length, history.Repeats start length := by
  constructor
  · intro hsome
    obtain ⟨cycle, hcycle⟩ := Option.isSome_iff_exists.1 hsome
    exact ⟨_, _, repeats_of_findCycle hcycle⟩
  · rintro ⟨start, length, hrepeats⟩
    exact Option.isSome_iff_ne_none.2 (findCycle_ne_none hrepeats)

/-- There is only one first repetition, and the search finds it. -/
theorem findCycle_eq_some_iff {cycle : Cycle} :
    history.findCycle = some cycle ↔
      IsLeast {start | ∃ length, history.Repeats start length} cycle.start ∧
        IsLeast {length | history.Repeats cycle.start length} cycle.length := by
  refine ⟨isLeast_of_findCycle, ?_⟩
  rintro ⟨hstart, hlength⟩
  obtain ⟨⟨first, shortest⟩, hfound⟩ :=
    Option.ne_none_iff_exists'.1 (findCycle_ne_none hlength.1)
  obtain ⟨hfirst, hshortest⟩ := isLeast_of_findCycle hfound
  obtain rfl : first = cycle.start := hfirst.unique hstart
  obtain rfl : shortest = cycle.length := hshortest.unique hlength
  exact hfound

/-! ## A pivot more -/

theorem length_push (pivot : Pivot) : (history.push pivot).length = history.length + 1 :=
  Array.size_push pivot

/-- A repetition that does not reach the new pivot was there before it. -/
theorem repeats_of_push {pivot : Pivot} (h : (history.push pivot).Repeats start length)
    (hwithin : start + 2 * length ≤ history.length) : history.Repeats start length := by
  have hold (i : Nat) (hi : i < history.length) :
      (history.push pivot).pivots[i]? = history.pivots[i]? := by
    have hne : i ≠ history.pivots.size := Nat.ne_of_lt hi
    rw [push, Array.getElem?_push, if_neg hne]
  refine ⟨h.length_pos, hwithin, ?_⟩
  intro offset hoffset
  have hequal := h.equal offset hoffset
  rwa [hold _ (by omega), hold _ (by omega)] at hequal

/-- The search for a repetition is exact.  It finds one if and only if there is one, and what
it finds has the earliest start and, from there, the least length.  A repetition that a new
pivot brings into a history without one ends at that pivot. -/
theorem findCycle_finds_first (history : PivotHistory) :
    (history.findCycle.isSome ↔ ∃ start length, history.Repeats start length) ∧
      (∀ cycle, history.findCycle = some cycle ↔
        IsLeast {start | ∃ length, history.Repeats start length} cycle.start ∧
          IsLeast {length | history.Repeats cycle.start length} cycle.length) ∧
      ((¬ ∃ start length, history.Repeats start length) → ∀ pivot cycle,
        (history.push pivot).findCycle = some cycle →
          cycle.start + 2 * cycle.length = (history.push pivot).length) := by
  refine ⟨findCycle_isSome_iff, fun _ => findCycle_eq_some_iff, ?_⟩
  intro hnone pivot cycle hcycle
  have hrepeats := repeats_of_findCycle hcycle
  have hwithin := hrepeats.within
  have hreaches : ¬ cycle.start + 2 * cycle.length ≤ history.length := by
    intro hold
    exact hnone ⟨_, _, repeats_of_push hrepeats hold⟩
  rw [length_push] at hwithin ⊢
  omega

/-- Five pivots without a repetition.  The sixth one brings the first pivot back too late for
a second round, and completes a repetition from the third pivot on. -/
def detour : PivotHistory :=
  ⟨#[⟨1, 2⟩, ⟨5, 6⟩, ⟨2, 1⟩, ⟨1, 2⟩, ⟨2, 1⟩]⟩

theorem findCycle_finds_first_detour :
    (¬ ∃ start length, detour.Repeats start length) ∧
      (detour.push ⟨1, 2⟩).findCycle = some ⟨2, 2⟩ ∧
      IsLeast {start | ∃ length, (detour.push ⟨1, 2⟩).Repeats start length} 2 ∧
      IsLeast {length | (detour.push ⟨1, 2⟩).Repeats 2 length} 2 ∧
      2 + 2 * 2 = (detour.push ⟨1, 2⟩).length := by
  have hnone : ¬ ∃ start length, detour.Repeats start length := by
    rw [← (findCycle_finds_first detour).1]
    decide
  have hcycle : (detour.push ⟨1, 2⟩).findCycle = some ⟨2, 2⟩ := by decide
  have hfirst := ((findCycle_finds_first (detour.push ⟨1, 2⟩)).2.1 ⟨2, 2⟩).1 hcycle
  exact ⟨hnone, hcycle, hfirst.1, hfirst.2, (findCycle_finds_first detour).2.2 hnone _ _ hcycle⟩

end PivotHistory

/-! ## Pivots as exchanges -/

namespace Pivot

def exchange (basis : Finset Nat) (pivot : Pivot) : Finset Nat :=
  insert pivot.entering (basis.erase pivot.leaving)

/-- A pivot that can be made: a basic variable leaves and another one enters. -/
def IsPossible (basis : Finset Nat) (pivot : Pivot) : Prop :=
  pivot.leaving ∈ basis ∧ pivot.entering ∉ basis

def ArePossible (basis : Finset Nat) : List Pivot → Prop
  | [] => True
  | pivot :: rest => IsPossible basis pivot ∧ ArePossible (exchange basis pivot) rest

/-- A variable takes part in a pivot. -/
def Moves (pivot : Pivot) (index : Nat) : Prop :=
  index = pivot.leaving ∨ index = pivot.entering

theorem mem_exchange_of_not_moves {basis : Finset Nat} {pivot : Pivot} {index : Nat}
    (h : ¬ pivot.Moves index) : index ∈ exchange basis pivot ↔ index ∈ basis := by
  rw [Moves, not_or] at h
  rw [exchange, Finset.mem_insert, Finset.mem_erase]
  constructor
  · rintro (hentering | hkept)
    · exact absurd hentering h.2
    · exact hkept.2
  · intro hindex
    exact .inr ⟨h.1, hindex⟩

theorem mem_foldl_exchange_of_not_moves {basis : Finset Nat} {pivots : List Pivot} {index : Nat}
    (h : ∀ pivot ∈ pivots, ¬ pivot.Moves index) :
    index ∈ pivots.foldl exchange basis ↔ index ∈ basis := by
  induction pivots generalizing basis with
  | nil => exact Iff.rfl
  | cons pivot rest ih =>
    obtain ⟨hfirst, hrest⟩ := List.forall_mem_cons.1 h
    exact (ih hrest).trans (mem_exchange_of_not_moves hfirst)

/-- Two sets from which the same pivots can be made agree on the variables that take
part. -/
theorem mem_iff_of_arePossible {basis basis' : Finset Nat} {pivots : List Pivot} {index : Nat}
    (hbasis : ArePossible basis pivots) (hbasis' : ArePossible basis' pivots)
    (hmoves : ∃ pivot ∈ pivots, pivot.Moves index) : index ∈ basis ↔ index ∈ basis' := by
  induction pivots generalizing basis basis' with
  | nil =>
    obtain ⟨pivot, hpivot, -⟩ := hmoves
    exact absurd hpivot List.not_mem_nil
  | cons pivot rest ih =>
    obtain ⟨hfirst, hrest⟩ := hbasis
    obtain ⟨hfirst', hrest'⟩ := hbasis'
    by_cases hpivot : pivot.Moves index
    · rcases hpivot with rfl | rfl
      · exact iff_of_true hfirst.1 hfirst'.1
      · exact iff_of_false hfirst.2 hfirst'.2
    · -- The first pivot leaves the variable alone, so a later one decides.
      have hlater : ∃ pivot ∈ rest, pivot.Moves index := by
        obtain ⟨later, hmem, hlater⟩ := hmoves
        rcases List.mem_cons.1 hmem with rfl | hmem
        · exact absurd hlater hpivot
        · exact ⟨later, hmem, hlater⟩
      calc index ∈ basis
          ↔ index ∈ exchange basis pivot := (mem_exchange_of_not_moves hpivot).symm
        _ ↔ index ∈ exchange basis' pivot := ih hrest hrest' hlater
        _ ↔ index ∈ basis' := mem_exchange_of_not_moves hpivot

/-- Pivots that can be made twice in a row return to where they began. -/
theorem foldl_exchange_eq_self {basis : Finset Nat} {pivots : List Pivot}
    (hfirst : ArePossible basis pivots)
    (hsecond : ArePossible (pivots.foldl exchange basis) pivots) :
    pivots.foldl exchange basis = basis := by
  ext index
  by_cases hmoves : ∃ pivot ∈ pivots, pivot.Moves index
  · exact mem_iff_of_arePossible hsecond hfirst hmoves
  · apply mem_foldl_exchange_of_not_moves
    intro pivot hpivot hindex
    exact hmoves ⟨pivot, hpivot, hindex⟩

end Pivot

end MixedInteger
