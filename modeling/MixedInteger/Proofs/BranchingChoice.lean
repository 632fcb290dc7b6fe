import MixedInteger.Proofs.SearchState
import MixedInteger.Proofs.Trail

/-!
# The variable to branch on

The test for an integral solution and the two rules for the next variable are three walks
over the same basic values, each with its own comparison.  Where the scalars are totally
ordered they draw the line at the same place: there is a variable to branch on exactly where
the solution is not integral, and it is the first of those that its rule ranks highest.  A
search that has to branch therefore always can, and the faults of a search are those of its
nodes.

Nothing else is asked of the scalars: distances, costs and the precision may be any numbers
of a total preorder.
-/

namespace MixedInteger.Tableau

variable {α : Type} [Scalar α] {t : Tableau α} {indices : List Nat}

/-- A basic variable whose value is further from an integer than the precision. -/
structure IsFractional (t : Tableau α) (index : Nat) (value : α) : Prop where
  basic : ∃ r, t.dictionary.row? index = some r ∧ t.dictionary.entry r 0 = value
  far : t.precision < distanceToInteger value

def costOf (t : Tableau α) (index : Nat) : α :=
  ((t.lookup? index).map Variable.cost).getD 0

/-- A rule ranks one variable, given with its value, at least as high as another. -/
def Ranks (t : Tableau α) (rule : Branching) (first second : Nat × α) : Prop :=
  match rule with
  | .mostFractional => distanceToInteger second.2 ≤ distanceToInteger first.2
  | .lowestCostFractional => t.costOf first.1 ≤ t.costOf second.1

/-! ## Basic values -/

theorem mem_basicValues_iff {index : Nat} {value : α} :
    (index, value) ∈ t.basicValues indices ↔
      index ∈ indices ∧ ∃ r, t.dictionary.row? index = some r ∧ t.dictionary.entry r 0 = value := by
  simp only [basicValues, List.mem_filterMap, Option.map_eq_some_iff, Prod.mk.injEq]
  constructor
  · rintro ⟨listed, hlisted, r, hrow, rfl, hvalue⟩
    exact ⟨hlisted, r, hrow, hvalue⟩
  · rintro ⟨hindex, r, hrow, hvalue⟩
    exact ⟨index, hindex, r, hrow, rfl, hvalue⟩

/-- A basic value in the list of values belongs to a variable at the same place of the list
of variables. -/
theorem exists_split_of_basicValues {before after : List (Nat × α)} {entry : Nat × α}
    (hsplit : t.basicValues indices = before ++ entry :: after) :
    ∃ front back, indices = front ++ entry.1 :: back ∧ t.basicValues front = before ∧
      t.basicValues back = after := by
  obtain ⟨front, tail, hindices, hfront, htail⟩ := List.filterMap_eq_append_iff.1 hsplit
  obtain ⟨skipped, index, back, rfl, hskipped, hindex, hback⟩ := List.filterMap_eq_cons_iff.1 htail
  obtain ⟨r, -, rfl⟩ := Option.map_eq_some_iff.1 hindex
  refine ⟨front ++ skipped, back, by rw [hindices, List.append_assoc], ?_, hback⟩
  have hnone : t.basicValues skipped = [] := List.filterMap_eq_nil_iff.2 hskipped
  calc t.basicValues (front ++ skipped)
      = t.basicValues front ++ t.basicValues skipped := List.filterMap_append
    _ = before := by
      rw [hnone, List.append_nil]
      exact hfront

section Order

variable [Std.IsLinearPreorder α] [Std.LawfulOrderLT α]

theorem mem_fractionalValues_iff {entry : Nat × α} :
    entry ∈ t.fractionalValues indices ↔
      entry ∈ t.basicValues indices ∧ t.precision < distanceToInteger entry.2 := by
  simp [fractionalValues, Std.not_le]

/-- A solution is integral if no listed variable is fractional. -/
theorem isIntegralOn_iff :
    t.isIntegralOn indices = true ↔
      ∀ entry ∈ t.basicValues indices, ¬ t.precision < distanceToInteger entry.2 := by
  simp [isIntegralOn, Std.not_lt]

/-! ## The two rules -/

/-- There is a variable to branch on exactly if the solution is not integral. -/
theorem branchingVariable?_eq_none_iff (rule : Branching) :
    t.branchingVariable? rule indices = none ↔ t.isIntegralOn indices = true := by
  rw [isIntegralOn_iff]
  cases rule with
  | mostFractional =>
    rw [branchingVariable?, mostFractional?, select_eq_none_iff, List.forall_mem_map]
    simp
  | lowestCostFractional =>
    have hempty : t.lowestCostFractional? indices = none ↔ t.fractionalValues indices = [] := by
      rw [lowestCostFractional?, select_eq_none_iff]
      cases t.fractionalValues indices <;> simp
    rw [branchingVariable?, hempty, List.eq_nil_iff_forall_not_mem]
    simp only [mem_fractionalValues_iff, not_and]

/-- The choice of a rule among the basic values: it is fractional, it ranks strictly above
every fractional value before it and at least as high as those after it. -/
structure IsFirstChoice (t : Tableau α) (rule : Branching) (found : Nat × α)
    (before after : List (Nat × α)) : Prop where
  far : t.precision < distanceToInteger found.2
  before_below : ∀ entry ∈ before, t.precision < distanceToInteger entry.2 →
    ¬ t.Ranks rule entry found
  after_not_above : ∀ entry ∈ after, t.precision < distanceToInteger entry.2 →
    t.Ranks rule found entry

theorem mostFractional?_eq_some {found : Nat × α}
    (hfound : t.mostFractional? indices = some found) :
    ∃ before after, t.basicValues indices = before ++ found :: after ∧
      IsFirstChoice t .mostFractional found before after := by
  obtain ⟨before, after, hsplit, hfar, hbefore, hafter⟩ := select_map_eq_some_first hfound
    (fun first second third hfirst hsecond => by
      rw [decide_eq_true_iff] at hfirst hsecond ⊢
      exact Std.lt_trans hsecond hfirst)
    (fun first second third hfirst hthird => by
      rw [decide_eq_true_iff] at hfirst ⊢
      rw [decide_eq_false_iff_not, Std.not_lt] at hthird
      exact Std.lt_of_le_of_lt hthird hfirst)
  refine ⟨before, after, hsplit, by simpa using hfar, ?_, ?_⟩
  · intro entry hentry _
    have hless := hbefore entry hentry
    rw [decide_eq_true_iff] at hless
    exact Std.not_le.2 hless
  · intro entry hentry _
    have hless := hafter entry hentry
    rw [decide_eq_false_iff_not, Std.not_lt] at hless
    exact hless

theorem lowestCostFractional?_eq_some {found : Nat × α}
    (hfound : t.lowestCostFractional? indices = some found) :
    ∃ before after, t.basicValues indices = before ++ found :: after ∧
      IsFirstChoice t .lowestCostFractional found before after := by
  -- A cost beats the mark of an empty choice, and the mark of a dearer one.
  obtain ⟨cheaper, rest, hsplit, -, hbefore, hafter⟩ := select_map_eq_some_first hfound
    (fun first second third hfirst hsecond => by
      cases first <;> cases second <;> cases third <;> simp_all
      exact Std.lt_trans hfirst hsecond)
    (fun first second third hfirst hthird => by
      cases first <;> cases second <;> cases third <;> simp_all [Std.not_lt]
      exact Std.lt_of_lt_of_le hfirst hthird)
  obtain ⟨front, tail, hvalues, hfront, htail⟩ := List.filter_eq_append_iff.1 hsplit
  obtain ⟨skipped, back, rfl, hskipped, hfar, hback⟩ := List.filter_eq_cons_iff.1 htail
  refine ⟨front ++ skipped, back, by rw [hvalues, List.append_assoc], ?_, ?_, ?_⟩
  · simpa [Std.not_le] using hfar
  · intro entry hentry hentryFar
    have hmem : entry ∈ cheaper := by
      rcases List.mem_append.1 hentry with hentry | hentry
      · rw [← hfront]
        exact List.mem_filter.2 ⟨hentry, by simpa [Std.not_le] using hentryFar⟩
      · exact absurd (by simpa [Std.not_le] using hentryFar) (hskipped entry hentry)
    have hless := hbefore entry hmem
    rw [decide_eq_true_iff] at hless
    exact Std.not_le.2 hless
  · intro entry hentry hentryFar
    have hmem : entry ∈ rest := by
      rw [← hback]
      exact List.mem_filter.2 ⟨hentry, by simpa [Std.not_le] using hentryFar⟩
    have hless := hafter entry hmem
    rw [decide_eq_false_iff_not, Std.not_lt] at hless
    exact hless

theorem branchingVariable?_eq_some {rule : Branching} {found : Nat × α}
    (hfound : t.branchingVariable? rule indices = some found) :
    ∃ before after, t.basicValues indices = before ++ found :: after ∧
      IsFirstChoice t rule found before after := by
  cases rule with
  | mostFractional => exact mostFractional?_eq_some hfound
  | lowestCostFractional => exact lowestCostFractional?_eq_some hfound

theorem isFractional_of_branchingVariable? {rule : Branching} {index : Nat} {value : α}
    (hfound : t.branchingVariable? rule indices = some (index, value)) :
    t.IsFractional index value := by
  obtain ⟨before, after, hsplit, hchoice⟩ := branchingVariable?_eq_some hfound
  have hmem : (index, value) ∈ t.basicValues indices := by
    rw [hsplit]
    exact List.mem_append_right before List.mem_cons_self
  exact ⟨(mem_basicValues_iff.1 hmem).2, hchoice.far⟩

end Order

/-! ## Faults of a search -/

/-- What can go wrong while a branch is solved: the pivots repeat themselves, a limit is
reached, or a cut is on a variable that is not there. -/
inductive IsNodeFault : Fault → Prop
  | cycle (phase : Phase) (repetition : Cycle) : IsNodeFault (Cause.cycle phase repetition : Fault)
  | outOfSteps : IsNodeFault (Cause.outOfSteps : Fault)
  | missing (index : Nat) : IsNodeFault (Cause.variableNotInTableau index : Fault)

theorem phaseLoop_faults (phase : Phase) (budget : Nat) (history : PivotHistory)
    (t : Tableau α) :
    Ends (phaseLoop phase budget history t) (fun _ _ => True) fun fault _ => IsNodeFault fault := by
  induction budget generalizing history t with
  | zero => cases phase <;> exact .outOfSteps
  | succ budget ih =>
    cases hnext : nextPivot? phase t with
    | none =>
      obtain ⟨-, t', hloop⟩ := phaseLoop_of_none hnext budget history
      rw [hloop]
      trivial
    | some place =>
      rw [phaseLoop_of_nextPivot? hnext]
      rcases notePivot_cases phase history place.1 place.2 t with ⟨history', hnote⟩ | ⟨cycle, hnote⟩
      · rw [hnote]
        exact ih history' _
      · rw [hnote]
        exact .cycle phase cycle

theorem simplex_faults (effort : Effort) (t : Tableau α) :
    Ends (simplex effort t) (fun _ _ => True) fun fault _ => IsNodeFault fault := by
  have hone : Ends (phaseOne effort t.cleared) (fun _ _ => True) fun fault _ => IsNodeFault fault :=
    phaseLoop_faults .one effort.pivots .empty t.cleared
  rw [simplex_eq]
  cases hphase : phaseOne effort t.cleared with
  | error fault t' =>
    rw [hphase] at hone
    exact hone
  | ok result t' =>
    dsimp only
    split
    · exact phaseLoop_faults .two effort.pivots .empty t'
    · trivial

theorem addTerms_fault {d : Dictionary α} {sign : α} {terms : List (Term α)} {row : Array α}
    {fault : Fault} (herror : addTerms d sign terms row = .error fault) :
    ∃ index, fault = (Cause.variableNotInTableau index : Fault) := by
  induction terms generalizing row with
  | nil => simp [addTerms] at herror
  | cons term rest ih =>
    rw [addTerms] at herror
    split at herror
    · exact ih herror
    · injection herror with hfault
      exact ⟨term.index, hfault.symm⟩

theorem addCuts_faults (cuts : List (Cut α)) (t : Tableau α) :
    Ends (addCuts cuts t) (fun _ _ => True)
      fun fault _ => ∃ index, fault = (Cause.variableNotInTableau index : Fault) := by
  apply Ends.forM addCut (fun _ => True) _ cuts _ t trivial
  intro cut _ t' _
  rw [addCut_run]
  split
  · trivial
  · next herror => exact addTerms_fault herror

theorem solveBranch_faults (space : SearchSpace α) (effort : Effort) (cuts : List (Cut α))
    (t : Tableau α) :
    Ends (solveBranch space effort cuts t) (fun _ _ => True) fun fault _ => IsNodeFault fault := by
  have hcuts := addCuts_faults cuts t.restore
  cases hadd : addCuts cuts t.restore with
  | error fault t' =>
    rw [hadd] at hcuts
    obtain ⟨index, rfl⟩ := hcuts
    rw [solveBranch_of_error hadd]
    exact .missing index
  | ok result t' =>
    apply solveBranch_ends (fun _ => True) _ effort hadd (simplex_faults effort t')
    intro _ t'' _ _
    apply roundingRounds_ends (fun _ => True) _ (fun _ _ => .outOfSteps) _ trivial
    intro source _ _ _
    exact simplex_faults effort _

section Order

variable [Std.IsLinearPreorder α] [Std.LawfulOrderLT α] {space : SearchSpace α}

/-- A node whose solution is not integral is split. -/
theorem visitNode_ends (search : Search α) (branch : Branch α) (t : Tableau α) :
    Ends (visitNode space search branch t) (fun _ _ => True) fun _ _ => False := by
  rw [visitNode_eq]
  split
  · trivial
  split
  · trivial
  split
  · trivial
  split
  · rw [acceptNode_eq]
    split <;> trivial
  next hfractional =>
  -- The snapshot that the root takes does not change what there is to branch on.
  have hsaved : (if search.nodes == 1 then t.save else t).branchingVariable?
      space.options.branching space.integers ≠ none := by
    have hsome : t.branchingVariable? space.options.branching space.integers ≠ none := by
      rw [Ne, branchingVariable?_eq_none_iff]
      exact hfractional
    split <;> exact hsome
  rw [splitNode_eq]
  dsimp only
  cases hfound : (if search.nodes == 1 then t.save else t).branchingVariable?
      space.options.branching space.integers with
  | none => exact absurd hfound hsaved
  | some found => trivial

theorem explore_faults (effort : Effort) (budget : Nat) (search : Search α) (t : Tableau α) :
    Ends (explore space effort budget search t) (fun _ _ => True)
      fun fault _ => IsNodeFault fault := by
  induction budget generalizing search t with
  | zero => exact .outOfSteps
  | succ budget ih =>
    rw [explore_succ]
    cases search.branches with
    | nil => trivial
    | cons branch branches =>
      dsimp only
      split
      · trivial
      split
      · exact ih _ t
      apply Ends.bind (solveBranch_faults space effort branch.cuts t)
      intro _ t' _
      apply Ends.bind ((visitNode_ends _ branch t').mono (fun _ _ h => h) fun _ _ h => h.elim)
      intro outcome t'' _
      cases outcome with
      | «continue» search' => exact ih search' t''
      | final search' => trivial

/-- The faults of a search are those of its nodes. -/
theorem branchAndCut_faults (space : SearchSpace α) (effort : Effort) (t : Tableau α) :
    Ends (branchAndCut space effort t) (fun _ _ => True) fun fault _ => IsNodeFault fault := by
  apply Ends.bind (explore_faults effort effort.branches Search.start t)
  intro outcome t' _
  cases outcome with
  | final search => trivial
  | «continue» search =>
    cases hincumbent : search.incumbent with
    | none =>
      change Ends ((finishSearch space effort search >>= fun _ => pure search.kept) t') _ _
      rw [bind_of_ok (finishSearch_of_none effort hincumbent t')]
      trivial
    | some incumbent =>
      have hfinish : Ends (finishSearch space effort search t') (fun _ _ => True)
          fun fault _ => IsNodeFault fault := by
        unfold finishSearch
        rw [hincumbent]
        exact Ends.bind (solveBranch_faults space effort incumbent.branch.cuts t')
          fun _ _ _ => trivial
      exact Ends.bind hfinish fun _ _ _ => trivial

/-! ## What a search branches on -/

omit [Std.IsLinearPreorder α] [Std.LawfulOrderLT α] in
/-- A fractional variable has one value. -/
theorem IsFractional.value_eq {index : Nat} {value value' : α} (h : t.IsFractional index value)
    (h' : t.IsFractional index value') : value' = value := by
  obtain ⟨r, hrow, hvalue⟩ := h.basic
  obtain ⟨r', hrow', hvalue'⟩ := h'.basic
  rw [hrow, Option.some.injEq] at hrow'
  rw [← hvalue, ← hvalue', hrow']

omit [Std.LawfulOrderLT α] in
theorem Ranks.refl (t : Tableau α) (rule : Branching) (entry : Nat × α) :
    t.Ranks rule entry entry := by
  cases rule <;> exact Std.le_refl _

omit [Std.LawfulOrderLT α] in
theorem Ranks.of_not {rule : Branching} {first second : Nat × α}
    (h : ¬ t.Ranks rule second first) : t.Ranks rule first second := by
  cases rule <;> exact Std.le_of_not_ge h

/-- A search can always branch.  There is a variable to branch on exactly if the solution is
not integral.  It is one of the listed basic variables with its value in the basic solution,
further from an integer than the precision; no other such variable ranks higher by the rule in
use, and those before it in the list rank lower.  No search fails for want of a variable to
branch on. -/
theorem branchingVariable?_chooses (t : Tableau α) (rule : Branching) (indices : List Nat) :
    (t.branchingVariable? rule indices = none ↔ t.isIntegralOn indices = true) ∧
      (∀ index value, t.branchingVariable? rule indices = some (index, value) →
        t.IsFractional index value ∧
          (∀ other ∈ indices, ∀ otherValue, t.IsFractional other otherValue →
            t.Ranks rule (index, value) (other, otherValue)) ∧
          ∃ front back, indices = front ++ index :: back ∧
            ∀ other ∈ front, ∀ otherValue, t.IsFractional other otherValue →
              ¬ t.Ranks rule (other, otherValue) (index, value)) ∧
      ∀ (space : SearchSpace α) (effort : Effort),
        Ends (branchAndCut space effort t) (fun _ _ => True)
          fun fault _ => fault.cause ≠ .nothingToBranchOn := by
  refine ⟨branchingVariable?_eq_none_iff rule, ?_, ?_⟩
  · intro index value hfound
    have hfractional := isFractional_of_branchingVariable? hfound
    obtain ⟨before, after, hsplit, hchoice⟩ := branchingVariable?_eq_some hfound
    obtain ⟨front, back, hindices, hfront, hback⟩ := exists_split_of_basicValues hsplit
    have hbelow : ∀ other ∈ front, ∀ otherValue, t.IsFractional other otherValue →
        ¬ t.Ranks rule (other, otherValue) (index, value) := by
      intro other hother otherValue hvalue
      apply hchoice.before_below _ _ hvalue.far
      rw [← hfront]
      exact mem_basicValues_iff.2 ⟨hother, hvalue.basic⟩
    refine ⟨hfractional, ?_, front, back, hindices, hbelow⟩
    intro other hother otherValue hvalue
    rw [hindices, List.mem_append, List.mem_cons] at hother
    rcases hother with hother | rfl | hother
    · exact Ranks.of_not (hbelow other hother otherValue hvalue)
    · rw [hfractional.value_eq hvalue]
      exact Ranks.refl t rule _
    · apply hchoice.after_not_above _ _ hvalue.far
      rw [← hback]
      exact mem_basicValues_iff.2 ⟨hother, hvalue.basic⟩
  · intro space effort
    apply (branchAndCut_faults space effort t).mono (fun _ _ _ => trivial)
    intro fault _ hfault
    cases hfault <;> simp

end Order

/-- Four basic integer variables: the second and the fourth are equally far from an integer,
the first and the fourth have the same cost, and the third is whole. -/
def tiedValues : Tableau Rat :=
  { blank 1e-9 with
    dictionary :=
      { matrix := #[#[0], #[6 / 5], #[49 / 20], #[3], #[91 / 20]]
        basic := #[none, some 0, some 1, some 2, some 3]
        nonBasic := #[none]
        rowOf := ⟨#[some 1, some 2, some 3, some 4]⟩
        columnOf := .empty
        secondary := [] }
    arena := #[some (.declare "w" 1 0 .required .integer false),
      some (.declare "x" 5 1 .required .integer false),
      some (.declare "y" (-1) 2 .required .integer false),
      some (.declare "z" 1 3 .required .integer false)] }

theorem branchingVariable?_chooses_tiedValues :
    tiedValues.branchingVariable? .mostFractional [0, 1, 2, 3] = some (1, 49 / 20) ∧
      tiedValues.Ranks .mostFractional (1, 49 / 20) (3, 91 / 20) ∧
      tiedValues.branchingVariable? .lowestCostFractional [3, 2, 1, 0] = some (3, 91 / 20) ∧
      tiedValues.Ranks .lowestCostFractional (3, 91 / 20) (0, 6 / 5) := by
  have hmost : tiedValues.branchingVariable? .mostFractional [0, 1, 2, 3] = some (1, 49 / 20) := by
    decide +kernel
  have hlowest :
      tiedValues.branchingVariable? .lowestCostFractional [3, 2, 1, 0] = some (3, 91 / 20) := by
    decide +kernel
  have hfourth : tiedValues.IsFractional 3 (91 / 20) :=
    ⟨⟨4, by decide +kernel, by decide +kernel⟩, by decide +kernel⟩
  have hfirst : tiedValues.IsFractional 0 (6 / 5) :=
    ⟨⟨1, by decide +kernel, by decide +kernel⟩, by decide +kernel⟩
  have hmostChoice :=
    (branchingVariable?_chooses tiedValues .mostFractional [0, 1, 2, 3]).2.1 _ _ hmost
  have hlowestChoice :=
    (branchingVariable?_chooses tiedValues .lowestCostFractional [3, 2, 1, 0]).2.1 _ _ hlowest
  exact ⟨hmost, hmostChoice.2.1 3 (by simp) _ hfourth, hlowest,
    hlowestChoice.2.1 0 (by simp) _ hfirst⟩

end MixedInteger.Tableau
