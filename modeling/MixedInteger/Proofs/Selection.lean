import MixedInteger.Tableau.Selection

/-!
# What a selection finds

A selection returns one of its candidates, or nothing when no candidate beats the
mark to start from.  Where the comparison is a strict order, the mark of the
candidate it returns is beaten by no other.
-/

namespace MixedInteger

variable {β μ : Type} {beats : μ → μ → Bool}

theorem selectFrom_eq_some {mark : μ} {best : Option β} {candidates : List (β × μ)} {found : β}
    (hfound : selectFrom beats mark best candidates = some found) :
    best = some found ∨ ∃ foundMark, (found, foundMark) ∈ candidates := by
  induction candidates generalizing mark best with
  | nil => exact .inl hfound
  | cons first rest ih =>
    obtain ⟨candidate, candidateMark⟩ := first
    rw [selectFrom] at hfound
    split at hfound
    · rcases ih hfound with hfirst | ⟨foundMark, hmem⟩
      · rw [Option.some.injEq] at hfirst
        subst hfirst
        exact .inr ⟨candidateMark, List.mem_cons_self⟩
      · exact .inr ⟨foundMark, List.mem_cons_of_mem _ hmem⟩
    · exact (ih hfound).imp id fun ⟨foundMark, hmem⟩ => ⟨foundMark, List.mem_cons_of_mem _ hmem⟩

/-- A selection returns one of its candidates. -/
theorem mem_of_select_eq_some {mark : μ} {candidates : List (β × μ)} {found : β}
    (hfound : select beats mark candidates = some found) :
    ∃ foundMark, (found, foundMark) ∈ candidates :=
  (selectFrom_eq_some hfound).resolve_left (by simp)

theorem selectFrom_some_ne_none {mark : μ} {best : β} (candidates : List (β × μ)) :
    selectFrom beats mark (some best) candidates ≠ none := by
  induction candidates generalizing mark best with
  | nil => simp [selectFrom]
  | cons first rest ih =>
    rw [selectFrom]
    split
    · exact ih
    · exact ih

/-- Nothing is selected when no candidate beats the mark to start from. -/
theorem select_eq_none_iff {mark : μ} {candidates : List (β × μ)} :
    select beats mark candidates = none ↔
      ∀ candidate ∈ candidates, beats candidate.2 mark = false := by
  unfold select
  induction candidates with
  | nil => simp [selectFrom]
  | cons first rest ih =>
    rw [selectFrom, List.forall_mem_cons]
    by_cases hbeats : beats first.2 mark = true
    · rw [if_pos hbeats]
      simp [selectFrom_some_ne_none, hbeats]
    · rw [if_neg hbeats, ih]
      simp [hbeats]

/-- The invariant of the walk: the result has a mark that is at least as good as the
mark to beat, and that no later candidate beats. -/
theorem selectFrom_eq_some_best {mark : μ} {best : Option β} {candidates : List (β × μ)}
    {found : β} (hfound : selectFrom beats mark best candidates = some found)
    (hirrefl : ∀ mark, beats mark mark = false)
    (htrans : ∀ first second third, beats first second = true → beats second third = true →
      beats first third = true) :
    (best = some found ∧ ∀ candidate ∈ candidates, beats candidate.2 mark = false) ∨
      ∃ foundMark, (found, foundMark) ∈ candidates ∧ beats foundMark mark = true ∧
        ∀ candidate ∈ candidates, beats candidate.2 foundMark = false := by
  induction candidates generalizing mark best with
  | nil => exact .inl ⟨hfound, by simp⟩
  | cons first rest ih =>
    obtain ⟨candidate, candidateMark⟩ := first
    rw [selectFrom] at hfound
    split at hfound
    · rename_i hbeats
      refine .inr ?_
      rcases ih hfound with ⟨hfirst, hrest⟩ | ⟨foundMark, hmem, hbetter, hrest⟩
      · rw [Option.some.injEq] at hfirst
        subst hfirst
        exact ⟨candidateMark, List.mem_cons_self, hbeats,
          List.forall_mem_cons.2 ⟨hirrefl candidateMark, hrest⟩⟩
      · refine ⟨foundMark, List.mem_cons_of_mem _ hmem, htrans _ _ _ hbetter hbeats,
          List.forall_mem_cons.2 ⟨?_, hrest⟩⟩
        rw [← Bool.not_eq_true]
        intro hworse
        exact Bool.eq_false_iff.1 (hirrefl foundMark) (htrans _ _ _ hbetter hworse)
    · rename_i hloses
      rw [Bool.not_eq_true] at hloses
      rcases ih hfound with ⟨hbest, hrest⟩ | ⟨foundMark, hmem, hbetter, hrest⟩
      · exact .inl ⟨hbest, List.forall_mem_cons.2 ⟨hloses, hrest⟩⟩
      · refine .inr ⟨foundMark, List.mem_cons_of_mem _ hmem, hbetter,
          List.forall_mem_cons.2 ⟨?_, hrest⟩⟩
        rw [← Bool.not_eq_true]
        intro hworse
        exact Bool.eq_false_iff.1 hloses (htrans _ _ _ hworse hbetter)

/-- The selected candidate beats the mark to start from, and no candidate beats
it. -/
theorem select_eq_some_best {mark : μ} {candidates : List (β × μ)} {found : β}
    (hfound : select beats mark candidates = some found)
    (hirrefl : ∀ mark, beats mark mark = false)
    (htrans : ∀ first second third, beats first second = true → beats second third = true →
      beats first third = true) :
    ∃ foundMark, (found, foundMark) ∈ candidates ∧ beats foundMark mark = true ∧
      ∀ candidate ∈ candidates, beats candidate.2 foundMark = false :=
  (selectFrom_eq_some_best hfound hirrefl htrans).resolve_left (by simp)

/-- The same invariant by places: the mark of the result beats the mark to beat and all
marks before its own, and no mark after it beats it. -/
theorem selectFrom_eq_some_first {mark : μ} {best : Option β} {candidates : List (β × μ)}
    {found : β} (hfound : selectFrom beats mark best candidates = some found)
    (htrans : ∀ first second third, beats first second = true → beats second third = true →
      beats first third = true)
    (hweak : ∀ first second third, beats first second = true → beats third second = false →
      beats first third = true) :
    (best = some found ∧ ∀ candidate ∈ candidates, beats candidate.2 mark = false) ∨
      ∃ before foundMark after, candidates = before ++ (found, foundMark) :: after ∧
        beats foundMark mark = true ∧
        (∀ candidate ∈ before, beats foundMark candidate.2 = true) ∧
        ∀ candidate ∈ after, beats candidate.2 foundMark = false := by
  induction candidates generalizing mark best with
  | nil => exact .inl ⟨hfound, by simp⟩
  | cons first rest ih =>
    obtain ⟨candidate, candidateMark⟩ := first
    rw [selectFrom] at hfound
    by_cases hbeats : beats candidateMark mark = true
    · rw [if_pos hbeats] at hfound
      rcases ih hfound with ⟨hfirst, hrest⟩ | ⟨before, foundMark, after, hsplit, hbetter, hbefore,
          hafter⟩
      · rw [Option.some.injEq] at hfirst
        subst hfirst
        exact .inr ⟨[], candidateMark, rest, rfl, hbeats, by simp, hrest⟩
      · exact .inr ⟨(candidate, candidateMark) :: before, foundMark, after, by rw [hsplit]; rfl,
          htrans _ _ _ hbetter hbeats, List.forall_mem_cons.2 ⟨hbetter, hbefore⟩, hafter⟩
    · rw [if_neg hbeats] at hfound
      rw [Bool.not_eq_true] at hbeats
      rcases ih hfound with ⟨hbest, hrest⟩ | ⟨before, foundMark, after, hsplit, hbetter, hbefore,
          hafter⟩
      · exact .inl ⟨hbest, List.forall_mem_cons.2 ⟨hbeats, hrest⟩⟩
      -- A candidate that was passed over is beaten by whatever beats the mark it failed to beat.
      · exact .inr ⟨(candidate, candidateMark) :: before, foundMark, after, by rw [hsplit]; rfl,
          hbetter, List.forall_mem_cons.2 ⟨hweak _ _ _ hbetter hbeats, hbefore⟩, hafter⟩

/-- Of the best candidates the first one is selected. -/
theorem select_map_eq_some_first {mark : μ} {items : List β} {key : β → μ} {found : β}
    (hfound : select beats mark (items.map fun item => (item, key item)) = some found)
    (htrans : ∀ first second third, beats first second = true → beats second third = true →
      beats first third = true)
    (hweak : ∀ first second third, beats first second = true → beats third second = false →
      beats first third = true) :
    ∃ before after, items = before ++ found :: after ∧ beats (key found) mark = true ∧
      (∀ item ∈ before, beats (key found) (key item) = true) ∧
      ∀ item ∈ after, beats (key item) (key found) = false := by
  obtain ⟨before, foundMark, after, hsplit, hbetter, hbefore, hafter⟩ :=
    (selectFrom_eq_some_first hfound htrans hweak).resolve_left (by simp)
  obtain ⟨front, tail, hitems, rfl, htail⟩ := List.map_eq_append_iff.1 hsplit
  obtain ⟨item, back, rfl, hitem, rfl⟩ := List.map_eq_cons_iff.1 htail
  rw [Prod.mk.injEq] at hitem
  obtain ⟨rfl, rfl⟩ := hitem
  rw [List.forall_mem_map] at hbefore hafter
  exact ⟨front, back, hitems, hbetter, hbefore, hafter⟩

end MixedInteger
