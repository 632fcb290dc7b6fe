import MixedInteger.Proofs.BasisChanges
import MixedInteger.Tableau.Validate

/-!
# Known variables and free indices

A tableau knows its variables by index and hands out indices from a pool.  The
pool is sound when no free index belongs to a known variable; a tableau is sound
when moreover its dictionary is consistent and holds exactly the known variables.
Registering and releasing variables, pivots and new rows keep it sound.

A search works on top of a snapshot.  Its extra variables only use indices that
were free when the snapshot was taken, so leaving the search brings back exactly
the variables that were known then.
-/

namespace MixedInteger.Tableau

variable {α : Type}

/-- No free index is in use, repeated, or beyond those handed out. -/
structure HasSoundPool (t : Tableau α) : Prop where
  free_nodup : t.pool.free.Nodup
  free_lt : ∀ index ∈ t.pool.free, index < t.pool.next
  free_unknown : ∀ index ∈ t.pool.free, t.lookup? index = none
  arena_size_le : t.arena.size ≤ t.pool.next

/-- The dictionary is consistent and holds exactly the known variables. -/
structure IsSound (t : Tableau α) : Prop extends HasSoundPool t where
  consistent : t.dictionary.IsConsistent
  mentions_iff : ∀ index, t.dictionary.Mentions index ↔ (t.lookup? index).isSome

theorem isPlaced_iff (t : Tableau α) (index : Nat) :
    t.isPlaced index = true ↔ t.dictionary.Mentions index := by
  simp [isPlaced, Dictionary.Mentions]

/-! ## Looking up variables -/

theorem lookup?_eq_none_of_le {t : Tableau α} {index : Nat} (hindex : t.arena.size ≤ index) :
    t.lookup? index = none := by
  rw [lookup?, Array.getElem?_eq_none hindex]
  rfl

theorem HasSoundPool.lt_next {t : Tableau α} (h : t.HasSoundPool) {index : Nat}
    (hindex : (t.lookup? index).isSome) : index < t.pool.next := by
  by_cases hbound : index < t.arena.size
  · exact Nat.lt_of_lt_of_le hbound h.arena_size_le
  · rw [lookup?_eq_none_of_le (by omega)] at hindex
    exact absurd hindex (by simp)

theorem join_getElem?_record (arena : Array (Option (Variable α))) (data : Variable α)
    (index : Nat) :
    (record arena data)[index]?.join =
      if index = data.index then some data else arena[index]?.join := by
  have hsize : data.index <
      (arena ++ Array.replicate (data.index + 1 - arena.size) none).size := by
    rw [Array.size_append, Array.size_replicate]
    omega
  rw [record, Dictionary.getElem?_join_setIfInBounds hsize]
  split
  · rfl
  · rw [Array.getElem?_append]
    split
    · rfl
    · rename_i hbound
      rw [Array.getElem?_replicate, Array.getElem?_eq_none (by omega)]
      split <;> rfl

theorem size_record (arena : Array (Option (Variable α))) (data : Variable α) :
    (record arena data).size = max arena.size (data.index + 1) := by
  rw [record, Array.size_setIfInBounds, Array.size_append, Array.size_replicate]
  omega

theorem lookup?_modifyVariable (t : Tableau α) (index other : Nat)
    (change : Variable α → Variable α) :
    (t.modifyVariable index change).lookup? other =
      if other = index then (t.lookup? other).map change else t.lookup? other := by
  rw [lookup?, lookup?, modifyVariable, Array.getElem?_modify]
  by_cases hother : other = index
  · rw [if_pos hother.symm, if_pos hother]
    cases t.arena[other]? <;> rfl
  · rw [if_neg (Ne.symm hother), if_neg hother]

/-! ## Taking and giving back indices -/

theorem lookup?_register {t : Tableau α} {make : Nat → Variable α}
    (hmake : (make t.pool.allocate.1).index = t.pool.allocate.1) (index : Nat) :
    (t.register make).2.lookup? index =
      if index = t.pool.allocate.1 then some (make t.pool.allocate.1) else t.lookup? index := by
  have hrecord := join_getElem?_record t.arena (make t.pool.allocate.1) index
  rw [hmake] at hrecord
  exact hrecord

/-- The index handed out next belongs to no known variable. -/
theorem HasSoundPool.lookup?_allocate {t : Tableau α} (h : t.HasSoundPool) :
    t.lookup? t.pool.allocate.1 = none := by
  unfold IndexPool.allocate
  split
  · rename_i index rest hfree
    exact h.free_unknown index (by rw [hfree]; exact List.mem_cons_self)
  · exact lookup?_eq_none_of_le h.arena_size_le

theorem HasSoundPool.register {t : Tableau α} (h : t.HasSoundPool) {make : Nat → Variable α}
    (hmake : ∀ index, (make index).index = index) : (t.register make).2.HasSoundPool := by
  have hlookup := lookup?_register (t := t) (hmake t.pool.allocate.1)
  have hsize : (t.register make).2.arena.size = max t.arena.size (t.pool.allocate.1 + 1) := by
    simp only [Tableau.register, size_record, hmake]
  have hpool : (t.register make).2.pool = t.pool.allocate.2 := rfl
  have hle := h.arena_size_le
  cases hfree : t.pool.free with
  | nil =>
    have hallocate : t.pool.allocate = (t.pool.next, ⟨[], t.pool.next + 1⟩) := by
      simp [IndexPool.allocate, hfree]
    rw [hallocate] at hsize
    refine ⟨?_, ?_, ?_, ?_⟩ <;> rw [hpool, hallocate]
    · exact List.nodup_nil
    · simp
    · simp
    · simp only at hsize ⊢
      omega
  | cons first rest =>
    have hallocate : t.pool.allocate = (first, ⟨rest, t.pool.next⟩) := by
      simp [IndexPool.allocate, hfree]
    have hnodup := h.free_nodup
    rw [hfree, List.nodup_cons] at hnodup
    rw [hallocate] at hsize hlookup
    refine ⟨?_, ?_, ?_, ?_⟩ <;> rw [hpool, hallocate]
    · exact hnodup.2
    · intro index hmem
      exact h.free_lt index (by rw [hfree]; exact List.mem_cons_of_mem first hmem)
    · intro index hmem
      have hne : index ≠ first := by
        rintro rfl
        exact hnodup.1 hmem
      rw [hlookup, if_neg hne]
      exact h.free_unknown index (by rw [hfree]; exact List.mem_cons_of_mem first hmem)
    · have hlt := h.free_lt first (by rw [hfree]; exact List.mem_cons_self)
      simp only at hsize ⊢
      omega

theorem lookup?_release (t : Tableau α) (index other : Nat) :
    (t.release index).lookup? other = if other = index then none else t.lookup? other := by
  rw [lookup?, lookup?, release, Array.getElem?_setIfInBounds]
  by_cases hother : other = index
  · subst hother
    by_cases hbound : other < t.arena.size <;> simp [hbound]
  · rw [if_neg (Ne.symm hother), if_neg hother]

theorem HasSoundPool.release {t : Tableau α} (h : t.HasSoundPool) {index : Nat}
    (hindex : (t.lookup? index).isSome) : (t.release index).HasSoundPool := by
  refine ⟨?_, ?_, ?_, ?_⟩
  · refine List.nodup_cons.2 ⟨fun hmem => ?_, h.free_nodup⟩
    rw [h.free_unknown index hmem] at hindex
    exact absurd hindex (by simp)
  · intro other hother
    rcases List.mem_cons.1 hother with rfl | hfree
    · exact h.lt_next hindex
    · exact h.free_lt other hfree
  · intro other hother
    rw [lookup?_release]
    split
    · rfl
    · rename_i hne
      exact h.free_unknown other ((List.mem_cons.1 hother).resolve_left hne)
  · exact Nat.le_trans (Nat.le_of_eq (Array.size_setIfInBounds ..)) h.arena_size_le

/-! ## Sound tableaus -/

theorem HasSoundPool.of_eq {t t' : Tableau α} (h : t.HasSoundPool) (hpool : t'.pool = t.pool)
    (harena : t'.arena = t.arena) : t'.HasSoundPool := by
  have hlookup : t'.lookup? = t.lookup? := by
    funext index
    rw [lookup?, lookup?, harena]
  refine ⟨?_, ?_, ?_, ?_⟩
  · rw [hpool]
    exact h.free_nodup
  · rw [hpool]
    exact h.free_lt
  · rw [hpool, hlookup]
    exact h.free_unknown
  · rw [hpool, harena]
    exact h.arena_size_le

theorem IsSound.of_dictionary {t t' : Tableau α} (h : t.IsSound)
    (hconsistent : t'.dictionary.IsConsistent)
    (hmentions : ∀ index, t'.dictionary.Mentions index ↔ t.dictionary.Mentions index)
    (hpool : t'.pool = t.pool) (harena : t'.arena = t.arena) : t'.IsSound := by
  refine ⟨h.toHasSoundPool.of_eq hpool harena, hconsistent, ?_⟩
  intro index
  rw [hmentions, h.mentions_iff, lookup?, lookup?, harena]

theorem IsSound.of_eq {t t' : Tableau α} (h : t.IsSound)
    (hdictionary : t'.dictionary = t.dictionary)
    (hpool : t'.pool = t.pool) (harena : t'.arena = t.arena) : t'.IsSound := by
  refine h.of_dictionary ?_ ?_ hpool harena
  · rw [hdictionary]
    exact h.consistent
  · intro index
    rw [hdictionary]

theorem IsSound.not_mentions_allocate {t : Tableau α} (h : t.IsSound) :
    ¬ t.dictionary.Mentions t.pool.allocate.1 := by
  rw [h.mentions_iff, h.lookup?_allocate]
  simp

/-- A new variable with a row of its own. -/
theorem IsSound.register_pushRow {t : Tableau α} (h : t.IsSound) {make : Nat → Variable α}
    (hmake : ∀ index, (make index).index = index) {row : Array α}
    (hrow : row.size = t.dictionary.width) :
    ((t.register make).2.modifyDictionary fun d =>
      d.pushRow t.pool.allocate.1 row).IsSound := by
  have hpool := h.toHasSoundPool.register hmake
  have hfresh := h.not_mentions_allocate
  refine ⟨⟨hpool.free_nodup, hpool.free_lt, hpool.free_unknown, hpool.arena_size_le⟩, ?_, ?_⟩
  · exact h.consistent.pushRow hfresh hrow
  · intro index
    have hlookup := lookup?_register (t := t) (hmake t.pool.allocate.1) index
    refine (Dictionary.mentions_pushRow hfresh row index).trans ?_
    change _ ↔ (((t.register make).2).lookup? index).isSome
    rw [hlookup, h.mentions_iff]
    by_cases hindex : index = t.pool.allocate.1 <;> simp [hindex]

/-! ## Returning to a snapshot -/

theorem join_getElem?_foldl_clear (free : List Nat) (arena : Array (Option (Variable α)))
    (index : Nat) :
    (free.foldl (fun arena index => arena.setIfInBounds index none) arena)[index]?.join =
      if index ∈ free then none else arena[index]?.join := by
  induction free generalizing arena with
  | nil => simp
  | cons first rest ih =>
    rw [List.foldl_cons, ih]
    by_cases hrest : index ∈ rest
    · rw [if_pos hrest, if_pos (List.mem_cons_of_mem first hrest)]
    · rw [if_neg hrest, Array.getElem?_setIfInBounds]
      by_cases hfirst : first = index
      · have hmem : index ∈ first :: rest := by
          rw [hfirst]
          exact List.mem_cons_self
        rw [if_pos hfirst, if_pos hmem]
        split <;> rfl
      · rw [if_neg hfirst, if_neg (by simp [hrest, Ne.symm hfirst])]

theorem size_foldl_clear (free : List Nat) (arena : Array (Option (Variable α))) :
    (free.foldl (fun arena index => arena.setIfInBounds index none) arena).size =
      arena.size := by
  induction free generalizing arena with
  | nil => rfl
  | cons first rest ih => rw [List.foldl_cons, ih, Array.size_setIfInBounds]

theorem lookup?_restore {t : Tableau α} {snapshot : Snapshot α}
    (hsnapshot : t.snapshot = some snapshot) (index : Nat) :
    t.restore.lookup? index =
      if index < snapshot.known ∧ index ∉ snapshot.pool.free then t.lookup? index else none := by
  rw [lookup?, lookup?, restore, hsnapshot]
  simp only [join_getElem?_foldl_clear, Array.getElem?_extract]
  by_cases hfree : index ∈ snapshot.pool.free
  · simp [hfree]
  rw [if_neg hfree, Nat.zero_add]
  by_cases hknown : index < snapshot.known
  · have hboth : index < snapshot.known ∧ index ∉ snapshot.pool.free := ⟨hknown, hfree⟩
    rw [if_pos hboth]
    by_cases hbound : index < t.arena.size
    · rw [if_pos (by omega)]
    · rw [if_neg (by omega), Array.getElem?_eq_none (by omega)]
  · have hboth : ¬ (index < snapshot.known ∧ index ∉ snapshot.pool.free) :=
      fun hboth => hknown hboth.1
    rw [if_neg hboth, if_neg (by omega)]
    rfl

theorem discardSearch_eq_self {t : Tableau α} (hsnapshot : t.snapshot = none) :
    t.discardSearch = t := by
  unfold discardSearch restore
  rw [hsnapshot]
  cases t
  simp_all

theorem snapshot_discardSearch (t : Tableau α) : t.discardSearch.snapshot = none := rfl

@[simp]
theorem discardSearch_discardSearch (t : Tableau α) :
    t.discardSearch.discardSearch = t.discardSearch :=
  discardSearch_eq_self (snapshot_discardSearch t)

@[simp]
theorem precision_discardSearch (t : Tableau α) : t.discardSearch.precision = t.precision := by
  unfold discardSearch restore
  split <;> rfl

/-- The variables of a tableau are all that its arena holds. -/
theorem arena_eq_of_lookup? {t s : Tableau α} (hsize : s.arena.size = t.arena.size)
    (hlookup : ∀ index, s.lookup? index = t.lookup? index) : s.arena = t.arena := by
  apply Array.ext hsize
  intro index hs ht
  have hindex := hlookup index
  rw [lookup?, lookup?, Array.getElem?_eq_getElem hs, Array.getElem?_eq_getElem ht] at hindex
  exact hindex

/-- No free index belongs to a known variable, and none is known beyond the indices
handed out. -/
structure HasClearPool (t : Tableau α) : Prop where
  free_unknown : ∀ index ∈ t.pool.free, t.lookup? index = none
  arena_size_le : t.arena.size ≤ t.pool.next

theorem HasSoundPool.hasClearPool {t : Tableau α} (h : t.HasSoundPool) : t.HasClearPool :=
  ⟨h.free_unknown, h.arena_size_le⟩

/-- A state that returns to `root`: the snapshot is that of `root`, and the variables
known there are untouched, because all later ones took indices that were free. -/
structure ReturnsTo (root t : Tableau α) : Prop where
  precision : t.precision = root.precision
  checksCycles : t.checksCycles = root.checksCycles
  snapshot : t.snapshot = some ⟨root.dictionary, root.pool, root.arena.size⟩
  known : ∀ index < root.arena.size, index ∉ root.pool.free →
    t.lookup? index = root.lookup? index
  free_subset : ∀ index ∈ t.pool.free, index ∈ root.pool.free
  next_le : root.pool.next ≤ t.pool.next
  size_le : root.arena.size ≤ t.arena.size

namespace ReturnsTo

variable {root t t' : Tableau α}

theorem save (t : Tableau α) : ReturnsTo t t.save :=
  ⟨rfl, rfl, rfl, fun _ _ _ => rfl, fun _ hindex => hindex, Nat.le_refl _, Nat.le_refl _⟩

/-- Changes of the dictionary and the verdict play no part. -/
theorem of_same (h : ReturnsTo root t) (hprecision : t'.precision = t.precision)
    (hchecks : t'.checksCycles = t.checksCycles) (hpool : t'.pool = t.pool)
    (harena : t'.arena = t.arena) (hsnapshot : t'.snapshot = t.snapshot) :
    ReturnsTo root t' := by
  refine ⟨hprecision.trans h.precision, hchecks.trans h.checksCycles,
    hsnapshot.trans h.snapshot, ?_, ?_, ?_, ?_⟩
  · intro index hindex hfree
    rw [lookup?, harena]
    exact h.known index hindex hfree
  · rw [hpool]
    exact h.free_subset
  · rw [hpool]
    exact h.next_le
  · rw [harena]
    exact h.size_le

/-! The saved state is brought back as it was. -/

theorem dictionary_restore (h : ReturnsTo root t) : t.restore.dictionary = root.dictionary := by
  unfold Tableau.restore
  rw [h.snapshot]

theorem pool_restore (h : ReturnsTo root t) : t.restore.pool = root.pool := by
  unfold Tableau.restore
  rw [h.snapshot]

theorem size_arena_restore (h : ReturnsTo root t) : t.restore.arena.size = root.arena.size := by
  have hsize := h.size_le
  unfold Tableau.restore
  rw [h.snapshot]
  simp only [size_foldl_clear, Array.size_extract]
  omega

theorem lookup?_restore (h : ReturnsTo root t) (hroot : root.HasClearPool) (index : Nat) :
    t.restore.lookup? index = root.lookup? index := by
  rw [Tableau.lookup?_restore h.snapshot]
  split
  · rename_i hindex
    exact h.known index hindex.1 hindex.2
  · rename_i hindex
    by_cases hfree : index ∈ root.pool.free
    · exact (hroot.free_unknown index hfree).symm
    · exact (lookup?_eq_none_of_le (Nat.le_of_not_lt fun hlt => hindex ⟨hlt, hfree⟩)).symm

theorem arena_restore (h : ReturnsTo root t) (hroot : root.HasClearPool) :
    t.restore.arena = root.arena :=
  arena_eq_of_lookup? h.size_arena_restore (h.lookup?_restore hroot)

theorem restore (h : ReturnsTo root t) (hroot : root.HasClearPool) :
    ReturnsTo root t.restore := by
  have hprecision : t.restore.precision = t.precision := by
    unfold Tableau.restore
    split <;> rfl
  have hchecks : t.restore.checksCycles = t.checksCycles := by
    unfold Tableau.restore
    split <;> rfl
  have hsnapshot : t.restore.snapshot = t.snapshot := by
    unfold Tableau.restore
    split <;> rfl
  exact (save root).of_same (hprecision.trans h.precision) (hchecks.trans h.checksCycles)
    h.pool_restore (h.arena_restore hroot) (hsnapshot.trans h.snapshot)

/-- A new variable takes an index that was free at the root, or none that it knows. -/
theorem allocate_ne (h : ReturnsTo root t) (hroot : root.HasClearPool) {index : Nat}
    (hindex : index < root.arena.size) (hfree : index ∉ root.pool.free) :
    index ≠ t.pool.allocate.1 := by
  rintro rfl
  cases hcase : t.pool.free with
  | nil =>
    have hallocate : t.pool.allocate.1 = t.pool.next := by
      simp [IndexPool.allocate, hcase]
    have hle := hroot.arena_size_le
    have hnext := h.next_le
    omega
  | cons first rest =>
    have hallocate : t.pool.allocate.1 = first := by
      simp [IndexPool.allocate, hcase]
    rw [hallocate] at hfree
    exact hfree (h.free_subset first (by rw [hcase]; exact List.mem_cons_self))

theorem register (h : ReturnsTo root t) (hroot : root.HasClearPool)
    {make : Nat → Variable α} (hmake : ∀ index, (make index).index = index) :
    ReturnsTo root (t.register make).2 := by
  refine ⟨h.precision, h.checksCycles, h.snapshot, ?_, ?_, ?_, ?_⟩
  · intro index hindex hfree
    have hlookup := lookup?_register (t := t) (hmake t.pool.allocate.1) index
    rw [if_neg (h.allocate_ne hroot hindex hfree)] at hlookup
    exact hlookup.trans (h.known index hindex hfree)
  · intro index hindex
    refine h.free_subset index ?_
    change index ∈ t.pool.allocate.2.free at hindex
    cases hcase : t.pool.free with
    | nil => simp [IndexPool.allocate, hcase] at hindex
    | cons first rest =>
      simp only [IndexPool.allocate, hcase] at hindex
      exact List.mem_cons_of_mem first hindex
  · change root.pool.next ≤ t.pool.allocate.2.next
    have hnext := h.next_le
    cases hcase : t.pool.free with
    | nil =>
      simp only [IndexPool.allocate, hcase]
      omega
    | cons first rest =>
      simp only [IndexPool.allocate, hcase]
      omega
  · apply Nat.le_trans h.size_le
    change t.arena.size ≤ (record t.arena (make t.pool.allocate.1)).size
    rw [size_record]
    exact Nat.le_max_left ..

end ReturnsTo

/-- A state of a search that returns to `root`: the snapshot is that of `root`, and
the variables known there are untouched, because those of the search took indices
that were free. -/
structure IsSearchFrom (root t : Tableau α) : Prop where
  precision : t.precision = root.precision
  checksCycles : t.checksCycles = root.checksCycles
  snapshot : t.snapshot = some ⟨root.dictionary, root.pool, root.arena.size⟩
  sound : t.IsSound
  known : ∀ index < root.arena.size, index ∉ root.pool.free →
    t.lookup? index = root.lookup? index
  free_subset : ∀ index ∈ t.pool.free, index ∈ root.pool.free
  next_le : root.pool.next ≤ t.pool.next
  size_le : root.arena.size ≤ t.arena.size

theorem ReturnsTo.isSearchFrom {root t : Tableau α} (h : ReturnsTo root t) (hsound : t.IsSound) :
    IsSearchFrom root t :=
  ⟨h.precision, h.checksCycles, h.snapshot, hsound, h.known, h.free_subset, h.next_le, h.size_le⟩

namespace IsSearchFrom

variable {root t t' : Tableau α}

theorem returnsTo (h : IsSearchFrom root t) : ReturnsTo root t :=
  ⟨h.precision, h.checksCycles, h.snapshot, h.known, h.free_subset, h.next_le, h.size_le⟩

theorem lookup?_discardSearch (h : IsSearchFrom root t) (hroot : root.IsSound) (index : Nat) :
    t.discardSearch.lookup? index = root.lookup? index :=
  h.returnsTo.lookup?_restore hroot.hasClearPool index

theorem dictionary_discardSearch (h : IsSearchFrom root t) :
    t.discardSearch.dictionary = root.dictionary :=
  h.returnsTo.dictionary_restore

theorem pool_discardSearch (h : IsSearchFrom root t) : t.discardSearch.pool = root.pool :=
  h.returnsTo.pool_restore

theorem dictionary_restore (h : IsSearchFrom root t) : t.restore.dictionary = root.dictionary :=
  h.returnsTo.dictionary_restore

/-- Leaving the search gives back the sound state it started from. -/
theorem sound_discardSearch (h : IsSearchFrom root t) (hroot : root.IsSound) :
    t.discardSearch.IsSound :=
  hroot.of_eq h.dictionary_discardSearch h.pool_discardSearch
    (h.returnsTo.arena_restore hroot.hasClearPool)

theorem restore (h : IsSearchFrom root t) (hroot : root.IsSound) :
    IsSearchFrom root t.restore :=
  (h.returnsTo.restore hroot.hasClearPool).isSearchFrom
    ((h.sound_discardSearch hroot).of_eq rfl rfl rfl)

/-- Changes of the dictionary that keep the variables stay within the search. -/
theorem of_dictionary (h : IsSearchFrom root t)
    (hconsistent : t'.dictionary.IsConsistent)
    (hmentions : ∀ index, t'.dictionary.Mentions index ↔ t.dictionary.Mentions index)
    (hprecision : t'.precision = t.precision) (hchecks : t'.checksCycles = t.checksCycles)
    (hpool : t'.pool = t.pool) (harena : t'.arena = t.arena)
    (hsnapshot : t'.snapshot = t.snapshot) : IsSearchFrom root t' :=
  (h.returnsTo.of_same hprecision hchecks hpool harena hsnapshot).isSearchFrom
    (h.sound.of_dictionary hconsistent hmentions hpool harena)

/-- A new variable of the search takes an index that was free. -/
theorem register_pushRow (h : IsSearchFrom root t) (hroot : root.IsSound)
    {make : Nat → Variable α} (hmake : ∀ index, (make index).index = index) {row : Array α}
    (hrow : row.size = t.dictionary.width) :
    IsSearchFrom root ((t.register make).2.modifyDictionary fun d =>
      d.pushRow t.pool.allocate.1 row) := by
  have hregistered := h.returnsTo.register hroot.hasClearPool hmake
  refine ReturnsTo.isSearchFrom ?_ (h.sound.register_pushRow hmake hrow)
  exact hregistered.of_same rfl rfl rfl rfl rfl

end IsSearchFrom

/-- The state just after a snapshot was taken. -/
theorem IsSound.save {t : Tableau α} (h : t.IsSound) : IsSearchFrom t t.save :=
  (ReturnsTo.save t).isSearchFrom (h.of_eq rfl rfl rfl)

end MixedInteger.Tableau
