import Mathlib.Data.Finset.Card
import Mathlib.Data.List.Permutation
import MixedInteger.Proofs.Trail
import MixedInteger.Proofs.Verdicts

/-!
# The simplex method ends

Over the rationals, and as long as pivots are exact, the numbers of a dictionary are
determined by the order in which its variables stand over rows and columns: the basic
solution and its moves along one column read off every entry.  There are finitely many
orders, so the trail of a phase comes back to one of them; from there on the choices
repeat, and the second round completes a repetition that the history of pivots shows.
-/

namespace MixedInteger

namespace Dictionary

/-! ## Numbers from the order of the variables -/

section Determined

variable {d d' : Dictionary Rat}

/-- A row is determined by its values at the solutions. -/
theorem eq_of_rowValue_eq (h : d.IsNamed) {row row' : Array Rat} (hrow : row.size = d.width)
    (hrow' : row'.size = d.width)
    (hvalues : ∀ x, d.Satisfies x → d.rowValue row' x = d.rowValue row x) : row' = row := by
  have hzero : entryOf row' 0 = entryOf row 0 := by
    have hvalue := hvalues _ (satisfies_valueOf h)
    rwa [rowValue_valueOf h, rowValue_valueOf h] at hvalue
  have hentry (c : Nat) (hc : c < d.width) : entryOf row' c = entryOf row c := by
    by_cases hpos : c = 0
    · rw [hpos, hzero]
    · -- The move by one along the column shows its entry.
      have hc' : c ∈ d.columns := mem_columns.2 ⟨Nat.pos_of_ne_zero hpos, hc⟩
      have hvalue := hvalues _ (satisfies_moved h hc' 1)
      rw [rowValue_moved h hc', rowValue_moved h hc', hzero] at hvalue
      linarith
  apply Array.ext (hrow'.trans hrow.symm)
  intro c hc hc'
  have hcolumn := hentry c (by rw [← hrow]; exact hc')
  simpa [entryOf, Array.getD_eq_getD_getElem?, hc, hc'] using hcolumn

/-- Two dictionaries whose numbers and names stand at the same places. -/
structure SameEntries {α : Type} (d d' : Dictionary α) : Prop where
  matrix : d'.matrix = d.matrix
  basic : d'.basic = d.basic
  nonBasic : d'.nonBasic = d.nonBasic
  secondary : d'.secondary = d.secondary

theorem rowValue_eq_of_nonBasic (h : d'.nonBasic = d.nonBasic) (row : Array Rat)
    (x : Nat → Rat) : d'.rowValue row x = d.rowValue row x := by
  apply rowValue_congr
  · rw [width, width, h]
  · rfl
  · intro c _
    rw [nameAt, nameAt, nonBasicAt, nonBasicAt, h]

theorem objectives_eq_of_sameProgram (h : d.HasBasis) (h' : d'.HasBasis)
    (hprogram : SameProgram d d') (hheight : 0 < d.height) (hheight' : 0 < d'.height)
    (hnonBasic : d'.nonBasic = d.nonBasic) : d'.objectives = d.objectives := by
  have hlength : d'.objectives.length = d.objectives.length := by
    have hvector := hprogram.objectiveVector_eq _ (satisfies_valueOf h.toIsNamed)
    simpa [objectiveVector] using congrArg List.length hvector
  have hwidth : d'.width = d.width := by rw [width, width, hnonBasic]
  apply List.ext_getElem hlength
  intro i hi hi'
  apply eq_of_rowValue_eq h.toIsNamed
  · exact size_of_mem_objectives h hheight (List.getElem_mem hi')
  · exact (size_of_mem_objectives h' hheight' (List.getElem_mem hi)).trans hwidth
  · intro x hx
    have hvector := hprogram.objectiveVector_eq x hx
    have hvalue := congrArg (fun values => values[i]?) hvector
    simp only [objectiveVector, List.getElem?_map, List.getElem?_eq_getElem hi,
      List.getElem?_eq_getElem hi', Option.map_some, Option.some.injEq] at hvalue
    rwa [rowValue_eq_of_nonBasic hnonBasic] at hvalue

theorem row_eq_of_sameProgram (h : d.HasBasis) (h' : d'.HasBasis) (hprogram : SameProgram d d')
    (hbasic : d'.basic = d.basic) (hnonBasic : d'.nonBasic = d.nonBasic) {r : Nat}
    (hr : r ∈ d.rows) : d'.row r = d.row r := by
  have hheight : d'.height = d.height := by rw [height, height, hbasic]
  have hwidth : d'.width = d.width := by rw [width, width, hnonBasic]
  have hr' : r ∈ d'.rows := by
    rw [mem_rows, hheight]
    exact mem_rows.1 hr
  obtain ⟨index, hindex⟩ := h.exists_basicAt hr
  have hindex' : d'.basicAt r = some index := by
    rw [basicAt, hbasic]
    exact hindex
  apply eq_of_rowValue_eq h.toIsNamed
  · exact h.row_size r (mem_rows.1 hr).2
  · exact (h'.row_size r (mem_rows.1 hr').2).trans hwidth
  · intro x hx
    calc d.rowValue (d'.row r) x
        = d'.rowValue (d'.row r) x := (rowValue_eq_of_nonBasic hnonBasic _ x).symm
      _ = x index := ((hprogram.satisfies_iff x).2 hx r hr' index hindex').symm
      _ = d.rowValue (d.row r) x := hx r hr index hindex

theorem eq_of_objectives {secondary secondary' : List (Objective Rat)}
    (hpriorities : secondary'.map Objective.priority = secondary.map Objective.priority)
    (hcosts : secondary'.map Objective.reducedCosts = secondary.map Objective.reducedCosts) :
    secondary' = secondary := by
  induction secondary generalizing secondary' with
  | nil => exact List.map_eq_nil_iff.1 hcosts
  | cons objective rest ih =>
    cases secondary' with
    | nil => exact absurd hcosts (by simp)
    | cons objective' rest' =>
      rw [List.map_cons, List.map_cons, List.cons.injEq] at hpriorities hcosts
      rw [ih hpriorities.2 hcosts.2]
      congr 1
      cases objective
      cases objective'
      exact congr (congrArg Objective.mk hpriorities.1) hcosts.1

/-- The order of the variables determines the numbers of a program. -/
theorem SameProgram.sameEntries (hprogram : SameProgram d d') (h : d.HasBasis) (h' : d'.HasBasis)
    (hheight : 0 < d.height) (hbasic : d'.basic = d.basic) (hnonBasic : d'.nonBasic = d.nonBasic)
    (hpriorities : d'.secondary.map Objective.priority = d.secondary.map Objective.priority) :
    SameEntries d d' := by
  have hheights : d'.height = d.height := by rw [height, height, hbasic]
  have hobjectives := objectives_eq_of_sameProgram h h' hprogram hheight (by omega) hnonBasic
  rw [objectives, objectives, List.cons.injEq] at hobjectives
  have hrow (r : Nat) (hr : r < d.height) : d'.row r = d.row r := by
    by_cases hzero : r = 0
    · rw [hzero]
      exact hobjectives.1
    · exact row_eq_of_sameProgram h h' hprogram hbasic hnonBasic
        (mem_rows.2 ⟨Nat.pos_of_ne_zero hzero, hr⟩)
  refine ⟨?_, hbasic, hnonBasic, eq_of_objectives hpriorities hobjectives.2⟩
  apply Array.ext
  · rw [h.matrix_size, h'.matrix_size, hheights]
  · intro r hr' hr
    have hentries := hrow r (by rw [← h.matrix_size]; exact hr)
    simpa [row_eq, hr, hr'] using hentries

end Determined

/-! ## Orders of the variables -/

section Arrangement

variable {α : Type} [Scalar α] {d : Dictionary α} {r c : Nat}

/-- The variables in the order in which they stand over rows and columns. -/
def arrangement {α : Type} (d : Dictionary α) : List (Option Nat) :=
  d.basic.toList ++ d.nonBasic.toList

omit [Scalar α] in
theorem length_arrangement (d : Dictionary α) : d.arrangement.length = d.height + d.width := by
  rw [arrangement, List.length_append, Array.length_toList, Array.length_toList]
  rfl

/-- A pivot swaps two variables in the order. -/
theorem arrangement_pivot (h : d.IsNamed) (hr : r ∈ d.rows) (hc : c ∈ d.columns) :
    (d.pivot r c).arrangement.Perm d.arrangement := by
  obtain ⟨leaving, hleaving⟩ := h.exists_basicAt hr
  obtain ⟨entering, hentering⟩ := h.exists_nonBasicAt hc
  have hheight : r < d.basic.size := (mem_rows.1 hr).2
  have hwidth : c < d.nonBasic.size := (mem_columns.1 hc).2
  have hleaving' : d.basic[r] = some leaving := by
    simpa [basicAt, hheight] using hleaving
  have hentering' : d.nonBasic[c] = some entering := by
    simpa [nonBasicAt, hwidth] using hentering
  have hswap : (d.pivot r c).arrangement =
      (d.arrangement.set r (some entering)).set (d.basic.size + c) (some leaving) := by
    have hexchange : (d.pivot r c).arrangement = (d.exchange r c).arrangement := rfl
    rw [hexchange, exchange, hleaving, hentering, arrangement, arrangement,
      List.set_append_left _ _ (by simpa using hheight), List.set_append_right _ _ (by simp)]
    simp
  have hfirst : r < d.arrangement.length := by
    rw [length_arrangement, height]
    omega
  have hsecond : d.basic.size + c < d.arrangement.length := by
    rw [length_arrangement, height, width]
    omega
  have hperm := List.set_set_perm hfirst hsecond
  rw [hswap]
  simpa [arrangement, List.getElem_append, hheight, hleaving', hentering'] using hperm

/-- Pivots read and change only numbers and names. -/
theorem SameEntries.pivot {d' : Dictionary α} (h : SameEntries d d') (r c : Nat) :
    SameEntries (d.pivot r c) (d'.pivot r c) := by
  have hbasicAt : d'.basicAt r = d.basicAt r := by rw [basicAt, basicAt, h.basic]
  have hnonBasicAt : d'.nonBasicAt c = d.nonBasicAt c := by
    rw [nonBasicAt, nonBasicAt, h.nonBasic]
  have hrow : d'.row r = d.row r := by rw [row, row, h.matrix]
  have hentry : d'.entry r c = d.entry r c := by rw [entry, entry, hrow]
  have hnames : (d'.exchange r c).basic = (d.exchange r c).basic ∧
      (d'.exchange r c).nonBasic = (d.exchange r c).nonBasic := by
    unfold exchange
    rw [hbasicAt, hnonBasicAt]
    split
    · exact ⟨by rw [h.basic], by rw [h.nonBasic]⟩
    · exact ⟨h.basic, h.nonBasic⟩
  refine ⟨?_, hnames.1, hnames.2, ?_⟩
  · simp only [Dictionary.pivot, hrow, hentry, h.matrix]
  · simp only [Dictionary.pivot, hrow, hentry, h.secondary]

theorem priorities_pivot (d : Dictionary α) (r c : Nat) :
    (d.pivot r c).secondary.map Objective.priority = d.secondary.map Objective.priority := by
  simp only [Dictionary.pivot, List.map_map]
  rfl

theorem PivotsTo.priorities_eq {allowed : Dictionary α → Nat → Nat → Prop} {final : Dictionary α}
    (hrun : PivotsTo allowed d final) :
    final.secondary.map Objective.priority = d.secondary.map Objective.priority :=
  hrun.invariant (fun d r c _ _ _ hkept => (priorities_pivot d r c).trans hkept) rfl

end Arrangement

end Dictionary

namespace Tableau

/-! ## Choices from numbers and names -/

section Choices

variable {α : Type} [Scalar α] {t t' : Tableau α} {phase : Phase}

def withPlaces (t : Tableau α) (rowOf columnOf : Places) : Tableau α :=
  { t with dictionary := { t.dictionary with rowOf := rowOf, columnOf := columnOf } }

theorem enteringAmong?_withPlaces (t : Tableau α) (rowOf columnOf : Places)
    (columns : List Nat) (objectives : List (Array α)) :
    (t.withPlaces rowOf columnOf).enteringAmong? columns objectives =
      t.enteringAmong? columns objectives := by
  induction objectives generalizing columns with
  | nil => rfl
  | cons reducedCosts lower ih =>
    simp only [enteringAmong?, ih]
    rfl

theorem nextPivot?_withPlaces (phase : Phase) (t : Tableau α) (rowOf columnOf : Places) :
    nextPivot? phase (t.withPlaces rowOf columnOf) = nextPivot? phase t := by
  cases phase with
  | one => rfl
  | two =>
    simp only [nextPivot?, phaseTwoStep, entering?, enteringAmong?_withPlaces]
    rfl

theorem nextPivot?_congr (hframe : SameFrame t t') (hdictionary : t'.dictionary = t.dictionary) :
    nextPivot? phase t' = nextPivot? phase t := by
  cases phase with
  | one => rw [nextPivot?, nextPivot?, hframe.phaseOneStep hdictionary]
  | two => rw [nextPivot?, nextPivot?, hframe.phaseTwoStep hdictionary]

/-- A phase chooses by numbers and names. -/
theorem nextPivot?_of_sameEntries (hframe : SameFrame t t')
    (hentries : Dictionary.SameEntries t.dictionary t'.dictionary) :
    nextPivot? phase t' = nextPivot? phase t := by
  have hframe' : SameFrame (t.withPlaces t'.dictionary.rowOf t'.dictionary.columnOf) t' :=
    ⟨hframe.precision, hframe.pool, hframe.arena, hframe.snapshot, hframe.checksCycles⟩
  have hdictionary : t'.dictionary =
      (t.withPlaces t'.dictionary.rowOf t'.dictionary.columnOf).dictionary := by
    simp only [withPlaces, ← hentries.matrix, ← hentries.basic, ← hentries.nonBasic,
      ← hentries.secondary]
  rw [nextPivot?_congr hframe' hdictionary, nextPivot?_withPlaces]

theorem pivotOf_of_sameEntries (hframe : SameFrame t t')
    (hentries : Dictionary.SameEntries t.dictionary t'.dictionary) :
    pivotOf phase t' = pivotOf phase t := by
  rw [pivotOf, pivotOf, nextPivot?_of_sameEntries hframe hentries]
  split
  · rw [pivotAt, pivotAt, Dictionary.basicAt, Dictionary.nonBasicAt, hentries.basic,
      hentries.nonBasic]
    rfl
  · rfl

theorem sameEntries_advance (hframe : SameFrame t t')
    (hentries : Dictionary.SameEntries t.dictionary t'.dictionary) :
    Dictionary.SameEntries (advance phase t).dictionary (advance phase t').dictionary := by
  rw [advance, advance, nextPivot?_of_sameEntries hframe hentries]
  split
  · exact hentries.pivot _ _
  · exact hentries

/-- Where the trail comes back to the same numbers and names, it repeats itself. -/
theorem sameEntries_trail {first second : Nat}
    (hentries : Dictionary.SameEntries (trail phase t first).dictionary
      (trail phase t second).dictionary) (offset : Nat) :
    Dictionary.SameEntries (trail phase t (first + offset)).dictionary
      (trail phase t (second + offset)).dictionary := by
  induction offset with
  | zero => exact hentries
  | succ offset ih =>
    rw [← Nat.add_assoc, ← Nat.add_assoc, trail_succ, trail_succ]
    apply sameEntries_advance _ ih
    exact sameFrame_trail_trail phase t _ _

theorem repeats_of_sameEntries {first length n : Nat} (hpos : 0 < length)
    (hwithin : first + 2 * length ≤ n)
    (hentries : Dictionary.SameEntries (trail phase t first).dictionary
      (trail phase t (first + length)).dictionary) :
    (pivotWord phase t n).Repeats first length := by
  refine ⟨hpos, by rw [length_pivotWord]; exact hwithin, ?_⟩
  intro offset hoffset
  rw [getElem?_pivotWord (by omega), getElem?_pivotWord (by omega),
    pivotOf_of_sameEntries (sameFrame_trail_trail phase t _ _) (sameEntries_trail hentries offset)]

end Choices

/-! ## Bounded runs -/

section Bounds

variable {t t' : Tableau Rat} {phase : Phase} {n : Nat}

/-- The first tableaus of the trail are reached by pivots that keep the meaning. -/
def IsExactUpTo (phase : Phase) (t : Tableau Rat) (n : Nat) : Prop :=
  ∀ k < n, ∃ r c, nextPivot? phase (trail phase t k) = some (r, c) ∧
    (trail phase t k).dictionary.PivotKeeps r c

theorem pivotsTo_trail (hexact : IsExactUpTo phase t n) {first second : Nat}
    (hle : first ≤ second) (hsecond : second ≤ n) :
    Dictionary.PivotsTo Dictionary.PivotKeeps (trail phase t first).dictionary
      (trail phase t second).dictionary := by
  induction second, hle using Nat.le_induction with
  | base => exact .refl _
  | succ second hle ih =>
    obtain ⟨r, c, hnext, hkeeps⟩ := hexact second hsecond
    obtain ⟨hr, hc⟩ := mem_of_nextPivot? hnext
    rw [trail_succ_of_nextPivot? hnext]
    exact (ih (by omega)).trans (.step hr hc hkeeps (.refl _))

/-- Tableaus of the trail with the variables in the same order have the same numbers. -/
theorem sameEntries_of_arrangement (h : t.dictionary.HasBasis)
    (hexact : IsExactUpTo phase t n) {first second : Nat} (hlt : first < second)
    (hsecond : second ≤ n)
    (harrangement : (trail phase t first).dictionary.arrangement =
      (trail phase t second).dictionary.arrangement) :
    Dictionary.SameEntries (trail phase t first).dictionary
      (trail phase t second).dictionary := by
  have hbasis := (pivotsTo_trail hexact (Nat.zero_le first) (by omega)).hasBasis h
  have hrun := pivotsTo_trail hexact hlt.le hsecond
  obtain ⟨hbasic, hnonBasic⟩ := List.append_inj harrangement
    (by simpa [Dictionary.height] using hrun.height_eq.symm)
  apply (hrun.sameProgram hbasis).sameEntries hbasis (hrun.hasBasis hbasis)
  · obtain ⟨r, c, hnext, -⟩ := hexact first (by omega)
    exact Nat.lt_of_le_of_lt (Nat.zero_le r)
      (Dictionary.mem_rows.1 (mem_of_nextPivot? hnext).1).2
  · exact Array.toList_inj.1 hbasic.symm
  · exact Array.toList_inj.1 hnonBasic.symm
  · exact hrun.priorities_eq

theorem arrangement_trail (h : t.dictionary.IsNamed) (phase : Phase) (n : Nat) :
    (trail phase t n).dictionary.arrangement.Perm t.dictionary.arrangement := by
  induction n with
  | zero => exact .refl _
  | succ n ih =>
    rw [trail_succ, advance]
    split
    · next hnext =>
      obtain ⟨hr, hc⟩ := mem_of_nextPivot? hnext
      exact (Dictionary.arrangement_pivot (isNamed_trail h phase n) hr hc).trans ih
    · exact ih

/-- After as many pivots as there are orders of the variables, one order has come back. -/
theorem exists_arrangement_eq (h : t.dictionary.IsNamed) (phase : Phase) :
    ∃ first second, first < second ∧
      second ≤ (t.dictionary.height + t.dictionary.width).factorial ∧
      (trail phase t first).dictionary.arrangement =
        (trail phase t second).dictionary.arrangement := by
  have hmaps : Set.MapsTo (fun k => (trail phase t k).dictionary.arrangement)
      (Finset.range ((t.dictionary.height + t.dictionary.width).factorial + 1))
      t.dictionary.arrangement.permutations.toFinset := by
    intro k _
    rw [List.coe_toFinset, Set.mem_ofPred_eq, List.mem_permutations]
    exact arrangement_trail h phase k
  have hcard : t.dictionary.arrangement.permutations.toFinset.card <
      (Finset.range ((t.dictionary.height + t.dictionary.width).factorial + 1)).card := by
    rw [Finset.card_range, Nat.lt_succ_iff, ← Dictionary.length_arrangement,
      ← List.length_permutations]
    exact List.toFinset_card_le _
  obtain ⟨left, hleft, right, hright, hne, heq⟩ :=
    Finset.exists_ne_map_eq_of_card_lt_of_maps_to hcard hmaps
  rw [Finset.mem_range, Nat.lt_succ_iff] at hleft hright
  rcases Nat.lt_or_gt_of_ne hne with hlt | hlt
  · exact ⟨left, right, hlt, hright, heq⟩
  · exact ⟨right, left, hlt, hleft, heq.symm⟩

/-- Twice as many pivots as there are orders of the variables show a repetition. -/
theorem lt_of_no_cycle (h : t.dictionary.HasBasis) (hexact : IsExactUpTo phase t n)
    (hnone : ∀ k, 0 < k → k ≤ n → (pivotWord phase t k).findCycle = none) :
    n < 2 * (t.dictionary.height + t.dictionary.width).factorial := by
  by_contra hlarge
  obtain ⟨first, second, hlt, hle, harrangement⟩ := exists_arrangement_eq h.toIsNamed phase
  have hentries := sameEntries_of_arrangement h hexact hlt (by omega) harrangement
  obtain ⟨length, rfl⟩ := Nat.exists_eq_add_of_lt hlt
  rw [Nat.add_assoc] at hentries
  have hrepeats : (pivotWord phase t (first + 2 * (length + 1))).Repeats first (length + 1) :=
    repeats_of_sameEntries (Nat.succ_pos length) le_rfl hentries
  exact PivotHistory.findCycle_ne_none hrepeats (hnone _ (by omega) (by omega))

/-- The pivots that a phase lists are those it asks for. -/
theorem nextPivot?_of_mem_phasePivots {history : PivotHistory} {event : PivotEvent Rat}
    (hevent : event ∈ phasePivots phase n history t) :
    nextPivot? phase event.before = some (event.row, event.column) := by
  cases phase with
  | one => rw [nextPivot?, (mem_phaseOnePivots hevent).1]
  | two => rw [nextPivot?, (mem_phaseTwoPivots hevent).1]

/-- A phase makes fewer pivots than twice the number of orders of the variables, and a
budget that covers them is not used up. -/
theorem runPhase_bounded (phase : Phase) (effort : Effort) (h : t.dictionary.HasBasis)
    (hchecks : t.checksCycles = true)
    (hkeeps : ∀ event ∈ phasePivots phase effort.pivots .empty t,
      event.before.dictionary.PivotKeeps event.row event.column) :
    (phasePivots phase effort.pivots .empty t).length <
        2 * (t.dictionary.height + t.dictionary.width).factorial ∧
      (2 * (t.dictionary.height + t.dictionary.width).factorial ≤ effort.pivots →
        Ends (runPhase phase effort t) (fun _ _ => True)
          fun fault _ => ∃ cycle, fault = (Cause.cycle phase cycle : Fault)) := by
  obtain ⟨n, hfollows⟩ := runPhase_followsTrail hchecks phase effort
  have hlength : (phasePivots phase effort.pivots .empty t).length = n := by
    simpa using congrArg List.length hfollows.before_eq
  have hexact : IsExactUpTo phase t n := by
    intro k hk
    have hmem : trail phase t k ∈
        (phasePivots phase effort.pivots .empty t).map PivotEvent.before := by
      rw [hfollows.before_eq]
      exact List.mem_map_of_mem (List.mem_range'_1.2 (by omega))
    obtain ⟨event, hevent, hbefore⟩ := List.mem_map.1 hmem
    rw [← hbefore]
    exact ⟨event.row, event.column, nextPivot?_of_mem_phasePivots hevent, hkeeps event hevent⟩
  have hbound := lt_of_no_cycle h hexact hfollows.no_cycle
  refine ⟨hlength.trans_lt hbound, ?_⟩
  intro hbudget
  have hends := hfollows.ends
  generalize runPhase phase effort t = outcome at hends
  cases hends with
  | settled t' _ => trivial
  | repeated _ _ => exact ⟨_, rfl⟩
  | exhausted hn => omega

/-- The bound on the second phase, in terms of the tableau on which the first one began. -/
theorem phaseTwo_bounded (effort : Effort) (start : Tableau Rat) (h : t.dictionary.HasBasis)
    (hchecks : t.checksCycles = true) (hframe : SameFrame t start)
    (hrun : Dictionary.PivotsTo Dictionary.PivotKeeps t.dictionary start.dictionary)
    (hkeeps : ∀ event ∈ phaseTwoPivots effort.pivots .empty start,
      event.before.dictionary.PivotKeeps event.row event.column) :
    (phaseTwoPivots effort.pivots .empty start).length <
        2 * (t.dictionary.height + t.dictionary.width).factorial ∧
      (2 * (t.dictionary.height + t.dictionary.width).factorial ≤ effort.pivots →
        Ends (phaseTwo effort start) (fun _ _ => True)
          fun fault _ => ∃ cycle, fault = (Cause.cycle .two cycle : Fault)) := by
  have hheight : start.dictionary.height = t.dictionary.height := hrun.height_eq
  have hwidth : start.dictionary.width = t.dictionary.width := hrun.width_eq
  rw [← hheight, ← hwidth]
  exact runPhase_bounded .two effort (hrun.hasBasis h) (hframe.checksCycles.trans hchecks) hkeeps

end Bounds

/-- With the check for cycles on, the simplex method makes a bounded number of pivots and
ends by itself: with a verdict or with a report of a cycle, for any numbers, further
objectives and free variables, as long as no pivot drops an entry other than zero. -/
theorem simplex_terminates (effort : Effort) (t : Tableau Rat) (hbasis : t.dictionary.HasBasis)
    (hprecision : 0 ≤ t.precision) (hchecks : t.checksCycles = true)
    (hexact : ∀ event ∈ simplexPivots effort t,
      event.before.dictionary.PivotExact event.row event.column) :
    (simplexPivots effort t).length <
        4 * (t.dictionary.height + t.dictionary.width).factorial ∧
      (2 * (t.dictionary.height + t.dictionary.width).factorial ≤ effort.pivots →
        (∃ t', simplex effort t = .ok () t') ∨
          ∃ phase cycle t', simplex effort t = .error (Cause.cycle phase cycle : Fault) t') := by
  have hkeeps : ∀ event ∈ simplexPivots effort t,
      event.before.dictionary.PivotKeeps event.row event.column := fun event hevent =>
    ⟨hexact event hevent, entry_ne_zero_of_mem_simplexPivots hprecision hevent⟩
  obtain ⟨hone, htwo⟩ := List.forall_mem_append.1 hkeeps
  obtain ⟨hlength, hends⟩ := runPhase_bounded .one effort (t := t.cleared) hbasis hchecks hone
  obtain ⟨hframe, hrun⟩ := phaseOneLoop_pivotsTo _ effort.pivots .empty t.cleared hone
  change SameFrame t.cleared (finalState (phaseOne effort t.cleared)) at hframe
  change Dictionary.PivotsTo _ t.dictionary
    (finalState (phaseOne effort t.cleared)).dictionary at hrun
  change (phaseOnePivots effort.pivots .empty t.cleared).length <
    2 * (t.dictionary.height + t.dictionary.width).factorial at hlength
  change _ → Ends (phaseOne effort t.cleared) _ _ at hends
  have hpositive := Nat.factorial_pos (t.dictionary.height + t.dictionary.width)
  rw [simplex_eq, simplexPivots, List.length_append]
  cases hphase : phaseOne effort t.cleared with
  | error fault start =>
    rw [hphase] at hends
    refine ⟨by simp only [List.length_nil]; omega, ?_⟩
    intro hbudget
    obtain ⟨cycle, rfl⟩ := hends hbudget
    exact .inr ⟨.one, cycle, start, rfl⟩
  | ok result start =>
    rw [hphase] at hframe hrun htwo
    cases hfeasible : start.isFeasible with
    | false =>
      refine ⟨by simp [hfeasible]; omega, ?_⟩
      intro _
      exact .inl ⟨start, by simp [hfeasible]⟩
    | true =>
      simp only [hfeasible, if_true] at htwo ⊢
      obtain ⟨hlength', hends'⟩ :=
        phaseTwo_bounded (t := t.cleared) effort start hbasis hchecks hframe hrun htwo
      change _ < 2 * (t.dictionary.height + t.dictionary.width).factorial at hlength'
      refine ⟨by omega, ?_⟩
      intro hbudget
      cases hphase' : phaseTwo effort start with
      | ok result t' => exact .inl ⟨t', rfl⟩
      | error fault t' =>
        rw [hphase'] at hends'
        obtain ⟨cycle, rfl⟩ := hends' hbudget
        exact .inr ⟨.two, cycle, t', rfl⟩

theorem simplex_terminates_twoGoals :
    (simplexPivots ⟨1440, 0, 0, fun _ => 0⟩ twoGoals).length < 4 * (3 + 3).factorial ∧
      ((∃ t', simplex ⟨1440, 0, 0, fun _ => 0⟩ twoGoals = .ok () t') ∨
        ∃ phase cycle t', simplex ⟨1440, 0, 0, fun _ => 0⟩ twoGoals =
          .error (Cause.cycle phase cycle : Fault) t') := by
  have hbasis : twoGoals.dictionary.HasBasis :=
    hasBasis_of_validate (by decide +kernel) (by decide +kernel)
  obtain ⟨hlength, hends⟩ := simplex_terminates ⟨1440, 0, 0, fun _ => 0⟩ twoGoals hbasis
    (by decide +kernel) rfl (by decide +kernel)
  exact ⟨hlength, hends (by decide +kernel)⟩

end Tableau

end MixedInteger
