import MixedInteger.Proofs.BranchingChoice
import MixedInteger.Proofs.SearchOptimality

/-!
# Branching divides the integral points

A branch that is split at a variable passes its cuts on to both parts, but each part drops
the bound that its new one supersedes.  Nothing gets lost by that, although the solution of
the node respects the old bound only up to the precision: the old bound is a whole number and
the value that is branched on is further than the precision from all of these, so it lies on
the inner side of the old bound, and so does the new one.

The loop over the open branches is taken apart into turns.  A turn that goes on either only
removes a branch, or it expands a node and adds the two parts of its branch; all that holds
of every open branch follows from these two cases.
-/

namespace MixedInteger

/-! ## New bounds for old ones -/

def Cut.HoldsWithin (precision : Rat) (cut : Cut Rat) (x : Nat → Rat) : Prop :=
  match cut.kind with
  | .atMost => x cut.index ≤ cut.value + precision
  | .atLeast => cut.value - precision ≤ x cut.index

instance (precision : Rat) (cut : Cut Rat) (x : Nat → Rat) :
    Decidable (cut.HoldsWithin precision x) :=
  match cut with
  | ⟨.atMost, index, value⟩ => inferInstanceAs (Decidable (x index ≤ value + precision))
  | ⟨.atLeast, index, value⟩ => inferInstanceAs (Decidable (value - precision ≤ x index))

theorem le_ceil (value : Rat) : value ≤ Scalar.ceil value :=
  Rat.ceil_le_iff.1 le_rfl

theorem isWhole_ceil (value : Rat) : IsWhole (Scalar.ceil value) :=
  ⟨value.ceil, rfl⟩

/-- No integer lies between the floor and the ceiling. -/
theorem le_floor_or_ceil_le {whole : Rat} (hwhole : IsWhole whole) (value : Rat) :
    whole ≤ Scalar.floor value ∨ Scalar.ceil value ≤ whole := by
  obtain ⟨n, rfl⟩ := hwhole
  rcases le_total (n : Rat) value with hle | hle
  · exact .inl (Rat.intCast_le_intCast.2 (Rat.le_floor_iff.2 hle))
  · exact .inr (Rat.intCast_le_intCast.2 (Rat.ceil_le_iff.2 hle))

section Bounds

variable {precision : Rat} {y : Nat → Rat}

/-- A value that is not near an integer is strictly between two of them. -/
theorem floor_lt_and_lt_ceil {value : Rat} (hprecision : 0 ≤ precision)
    (hfar : ∀ n : ℤ, precision < |value - n|) :
    Scalar.floor value < value ∧ value < Scalar.ceil value := by
  have hne {whole : Rat} (hwhole : IsWhole whole) : value ≠ whole := by
    obtain ⟨n, rfl⟩ := hwhole
    intro heq
    have hdistance := hfar n
    rw [heq, sub_self, abs_zero] at hdistance
    linarith
  exact ⟨lt_of_le_of_ne (floor_le value) (hne (isWhole_floor value)).symm,
    lt_of_le_of_ne (le_ceil value) (hne (isWhole_ceil value))⟩

/-- Where a value is not near an integer, a whole bound that holds up to the precision holds. -/
theorem Cut.HoldsWithin.holds {cut : Cut Rat} (h : cut.HoldsWithin precision y)
    (hwhole : IsWhole cut.value) (hfar : ∀ n : ℤ, precision < |y cut.index - n|) :
    cut.Holds y := by
  obtain ⟨kind, index, limit⟩ := cut
  obtain ⟨n, hn⟩ := hwhole
  have hdistance := hfar n
  rw [← hn] at hdistance
  by_contra hfails
  cases kind with
  | atMost =>
    change y index ≤ limit + precision at h
    rw [abs_of_pos (sub_pos.2 (not_le.1 hfails))] at hdistance
    linarith
  | atLeast =>
    change limit - precision ≤ y index at h
    rw [abs_of_neg (sub_neg.2 (not_le.1 hfails))] at hdistance
    linarith

end Bounds

/-! ## The parts of a branch -/

namespace Branch

/-- The cuts of a branch after a new one took the place of the one it supersedes. -/
def cutsWith {α : Type} (branch : Branch α) (cut : Cut α) : List (Cut α) :=
  branch.cutsBeside cut.index cut.kind ++ [cut]

/-- All bounds are whole, and a variable has at most one of each kind. -/
structure IsTidy (branch : Branch Rat) : Prop where
  whole : ∀ cut ∈ branch.cuts, IsWhole cut.value
  single : branch.cuts.Pairwise fun first second =>
    ¬ (first.index = second.index ∧ first.kind = second.kind)

/-- The integral points of a branch are divided among its two parts, and `y` is in neither. -/
structure IsDivided (branch low high : Branch Rat) (index : Nat) (y : Nat → Rat) : Prop where
  points : ∀ x, IsWhole (x index) →
    (Tableau.AllHold branch.cuts x ↔
      Xor (Tableau.AllHold low.cuts x) (Tableau.AllHold high.cuts x))
  disjoint : ∀ x, ¬ (Tableau.AllHold low.cuts x ∧ Tableau.AllHold high.cuts x)
  not_low : ¬ Tableau.AllHold low.cuts y
  not_high : ¬ Tableau.AllHold high.cuts y

variable {branch : Branch Rat} {cut : Cut Rat} {y : Nat → Rat}

theorem mem_cutsBeside_iff {index : Nat} {kind : CutKind} :
    cut ∈ branch.cutsBeside index kind ↔
      cut ∈ branch.cuts ∧ ¬ (cut.index = index ∧ cut.kind = kind) := by
  simp only [cutsBeside, List.mem_filter, Bool.not_eq_true', Bool.and_eq_false_imp, beq_iff_eq,
    beq_eq_false_iff_ne, not_and]

/-- A new whole bound keeps a branch tidy. -/
theorem IsTidy.cutsWith (h : branch.IsTidy) (cut : Cut Rat) (hwhole : IsWhole cut.value)
    (bound : Option Rat) :
    IsTidy ⟨bound, branch.cutsWith cut⟩ where
  whole := by
    intro other hother
    rcases List.mem_append.1 hother with hold | hnew
    · exact h.whole other (mem_cutsBeside_iff.1 hold).1
    · rw [List.mem_singleton.1 hnew]
      exact hwhole
  single := by
    apply List.pairwise_append.2
    refine ⟨h.single.sublist List.filter_sublist, List.pairwise_singleton _ _, ?_⟩
    intro other hother new hnew
    rw [List.mem_singleton.1 hnew]
    exact (mem_cutsBeside_iff.1 hother).2

/-- Where a new bound implies the one it supersedes, it only adds to the branch. -/
theorem allHold_cutsWith_iff (cut : Cut Rat) {x : Nat → Rat}
    (himplies : ∀ old ∈ branch.cuts, old.index = cut.index → old.kind = cut.kind →
      cut.Holds x → old.Holds x) :
    Tableau.AllHold (branch.cutsWith cut) x ↔ Tableau.AllHold branch.cuts x ∧ cut.Holds x := by
  unfold Branch.cutsWith Tableau.AllHold
  rw [List.forall_mem_append, List.forall_mem_singleton]
  constructor
  · rintro ⟨hbeside, hnew⟩
    refine ⟨?_, hnew⟩
    intro old hold
    by_cases hsuperseded : old.index = cut.index ∧ old.kind = cut.kind
    · exact himplies old hold hsuperseded.1 hsuperseded.2 hnew
    · exact hbeside old (mem_cutsBeside_iff.2 ⟨hold, hsuperseded⟩)
  · rintro ⟨hall, hnew⟩
    exact ⟨fun old hold => hall old (mem_cutsBeside_iff.1 hold).1, hnew⟩

section Split

variable {precision : Rat} {index : Nat}

theorem allHold_low_iff (h : branch.IsTidy) (hfar : ∀ n : ℤ, precision < |y index - n|)
    (hwithin : ∀ cut ∈ branch.cuts, cut.HoldsWithin precision y) (bound : Rat) (x : Nat → Rat) :
    Tableau.AllHold (branch.low bound index (y index)).cuts x ↔
      Tableau.AllHold branch.cuts x ∧ x index ≤ Scalar.floor (y index) := by
  apply allHold_cutsWith_iff ⟨.atMost, index, Scalar.floor (y index)⟩
  rintro ⟨kind, old, limit⟩ hmem hindex hkind hnew
  dsimp only at hindex hkind
  subst hindex hkind
  calc x old ≤ Scalar.floor (y old) := hnew
    _ ≤ y old := floor_le (y old)
    _ ≤ limit := (hwithin _ hmem).holds (h.whole _ hmem) hfar

theorem allHold_high_iff (h : branch.IsTidy) (hfar : ∀ n : ℤ, precision < |y index - n|)
    (hwithin : ∀ cut ∈ branch.cuts, cut.HoldsWithin precision y) (bound : Rat) (x : Nat → Rat) :
    Tableau.AllHold (branch.high bound index (y index)).cuts x ↔
      Tableau.AllHold branch.cuts x ∧ Scalar.ceil (y index) ≤ x index := by
  apply allHold_cutsWith_iff ⟨.atLeast, index, Scalar.ceil (y index)⟩
  rintro ⟨kind, old, limit⟩ hmem hindex hkind hnew
  dsimp only at hindex hkind
  subst hindex hkind
  calc limit ≤ y old := (hwithin _ hmem).holds (h.whole _ hmem) hfar
    _ ≤ Scalar.ceil (y old) := le_ceil (y old)
    _ ≤ x old := hnew

/-- A tidy branch is divided by a value that is not near an integer. -/
theorem IsTidy.isDivided (h : branch.IsTidy) (hprecision : 0 ≤ precision)
    (hfar : ∀ n : ℤ, precision < |y index - n|)
    (hwithin : ∀ cut ∈ branch.cuts, cut.HoldsWithin precision y) (bound : Rat) :
    branch.IsDivided (branch.low bound index (y index)) (branch.high bound index (y index))
      index y := by
  obtain ⟨hfloor, hceil⟩ := floor_lt_and_lt_ceil hprecision hfar
  have hlow := allHold_low_iff h hfar hwithin bound
  have hhigh := allHold_high_iff h hfar hwithin bound
  have hdisjoint (x : Nat → Rat) :
      ¬ (Tableau.AllHold (branch.low bound index (y index)).cuts x ∧
        Tableau.AllHold (branch.high bound index (y index)).cuts x) := by
    rw [hlow, hhigh]
    rintro ⟨⟨-, hle⟩, -, hge⟩
    linarith
  refine ⟨?_, hdisjoint, ?_, ?_⟩
  · intro x hwhole
    rw [xor_iff_or_and_not_and]
    constructor
    · intro hall
      refine ⟨?_, hdisjoint x⟩
      rw [hlow, hhigh]
      exact (le_floor_or_ceil_le hwhole (y index)).imp (⟨hall, ·⟩) (⟨hall, ·⟩)
    · rintro ⟨hpart | hpart, -⟩
      · exact ((hlow x).1 hpart).1
      · exact ((hhigh x).1 hpart).1
  · rw [hlow]
    exact fun hpart => absurd hpart.2 (not_le.2 hfloor)
  · rw [hhigh]
    exact fun hpart => absurd hpart.2 (not_le.2 hceil)

end Split

end Branch

/-! ## The turns of a search -/

namespace Tableau

/-- Where the loop over open branches begins a turn. -/
structure LoopState (α : Type) where
  search : Search α
  tableau : Tableau α

/-- How a turn of the loop ends. -/
inductive Turn (α : Type) where
  | ends (outcome : EStateM.Result Fault (Tableau α) (NodeOutcome α))
  | goesOn (state : LoopState α)

/-- A node that is expanded: its branch, the tableau that solved it, and the variable that is
branched on with its value. -/
structure Expansion (α : Type) where
  branch : Branch α
  solved : Tableau α
  index : Nat
  value : α

section Turns

variable {α : Type} [Scalar α]

namespace Expansion

def low (node : Expansion α) : Branch α :=
  node.branch.low node.solved.objectiveValue node.index node.value

def high (node : Expansion α) : Branch α :=
  node.branch.high node.solved.objectiveValue node.index node.value

end Expansion

def turnAfter : EStateM.Result Fault (Tableau α) (NodeOutcome α) → Turn α
  | .ok (.continue search) t => .goesOn ⟨search, t⟩
  | outcome => .ends outcome

/-- One turn of the loop: it takes up the first open branch. -/
def turn (space : SearchSpace α) (effort : Effort) (state : LoopState α) : Turn α :=
  match state.search.branches with
  | [] => .ends (.ok (.continue state.search) state.tableau)
  | branch :: branches =>
    let search := { state.search with branches := branches }
    if search.isTimedOut space effort ||
        search.isCloseEnough space state.tableau.rootEvaluation then
      .ends (.ok (.continue search) state.tableau)
    else if branch.bound.any search.isWorse then .goesOn ⟨search, state.tableau⟩
    else
      turnAfter ((solveBranch space effort branch.cuts >>= fun _ =>
        visitNode space { search with nodes := search.nodes + 1 } branch) state.tableau)

/-- Whether a node that has just been solved is to be split. -/
def needsSplit (space : SearchSpace α) (search : Search α) (t : Tableau α) : Bool :=
  t.isFeasible && t.isBounded && !search.isFathomed t.objectiveValue t.secondaryValues &&
    !t.isIntegralOn space.integers

/-- The node that a turn expands, if it expands one. -/
def expansion? (space : SearchSpace α) (effort : Effort) (state : LoopState α) :
    Option (Expansion α) :=
  match state.search.branches with
  | [] => none
  | branch :: branches =>
    let search := { state.search with branches := branches }
    if search.isTimedOut space effort ||
        search.isCloseEnough space state.tableau.rootEvaluation then
      none
    else if branch.bound.any search.isWorse then none
    else
      match solveBranch space effort branch.cuts state.tableau with
      | .error _ _ => none
      | .ok _ t =>
        if needsSplit space { search with nodes := search.nodes + 1 } t then
          (t.branchingVariable? space.options.branching space.integers).map fun found =>
            ⟨branch, t, found.1, found.2⟩
        else none

/-- The states in which the loop begins a turn, or would begin one if its budget were not
used up. -/
def loopStates (space : SearchSpace α) (effort : Effort) : Nat → LoopState α → List (LoopState α)
  | 0, state => [state]
  | budget + 1, state =>
    state :: match turn space effort state with
      | .ends _ => []
      | .goesOn next => loopStates space effort budget next

variable {space : SearchSpace α} {effort : Effort} {state next : LoopState α}

/-- The loop is one turn after the other. -/
theorem explore_eq_turn (budget : Nat) (search : Search α) (t : Tableau α) :
    explore space effort (budget + 1) search t =
      match turn space effort ⟨search, t⟩ with
      | .ends outcome => outcome
      | .goesOn next => explore space effort budget next.search next.tableau := by
  rw [explore_succ, turn]
  cases search.branches with
  | nil => rfl
  | cons branch branches =>
    dsimp only
    split
    · rfl
    split
    · rfl
    cases hsolve : solveBranch space effort branch.cuts t with
    | error fault t' =>
      rw [bind_of_error hsolve, bind_of_error hsolve]
      rfl
    | ok result t' =>
      rw [bind_of_ok hsolve, bind_of_ok hsolve]
      cases hvisit : visitNode space
          { search with branches := branches, nodes := search.nodes + 1 } branch t' with
      | error fault t'' =>
        rw [bind_of_error hvisit]
        rfl
      | ok outcome t'' =>
        rw [bind_of_ok hvisit]
        cases outcome <;> rfl

/-- From every state of the loop the rest of it gives the outcome of the whole. -/
theorem explore_of_mem_loopStates {budget : Nat} {first : LoopState α}
    (h : state ∈ loopStates space effort budget first) :
    ∃ rest ≤ budget, explore space effort budget first.search first.tableau =
      explore space effort rest state.search state.tableau := by
  induction budget generalizing first with
  | zero =>
    rw [List.mem_singleton.1 h]
    exact ⟨0, le_rfl, rfl⟩
  | succ budget ih =>
    rcases List.mem_cons.1 h with rfl | hlater
    · exact ⟨budget + 1, le_rfl, rfl⟩
    rw [explore_eq_turn]
    cases hturn : turn space effort first with
    | ends outcome =>
      rw [hturn] at hlater
      exact absurd hlater List.not_mem_nil
    | goesOn next =>
      rw [hturn] at hlater
      obtain ⟨rest, hrest, hexplore⟩ := ih hlater
      exact ⟨rest, hrest.trans (Nat.le_succ budget), hexplore⟩

/-- The snapshot that the root takes does not change where a node is split. -/
theorem visitNode_of_needsSplit {search : Search α} {t : Tableau α}
    (h : needsSplit space search t = true) (branch : Branch α) :
    visitNode space search branch t =
      let saved := if search.nodes == 1 then t.save else t
      match t.branchingVariable? space.options.branching space.integers with
      | none => .error (Cause.nothingToBranchOn : Fault) saved
      | some (index, value) =>
        .ok (.continue (search.split space.options.nodeSelection branch t.objectiveValue index
          value)) saved := by
  simp only [needsSplit, Bool.and_eq_true, Bool.not_eq_true'] at h
  obtain ⟨⟨⟨hfeasible, hbounded⟩, hfathomed⟩, hfractional⟩ := h
  have hvisit : visitNode space search branch t = splitNode space search branch t := by
    rw [visitNode_eq, hfeasible, hbounded, hfathomed, hfractional]
    rfl
  rw [hvisit, splitNode_eq]
  cases search.nodes == 1 <;> rfl

/-- A node that is not split opens no branches. -/
theorem visitNode_of_not_needsSplit {search : Search α} {t : Tableau α}
    (h : needsSplit space search t = false) (branch : Branch α) :
    Ends (visitNode space search branch t)
      (fun outcome _ => ∀ search', outcome = .continue search' →
        search'.branches = search.branches) fun _ _ => True := by
  rw [visitNode_eq]
  split
  · rintro search' ⟨⟩
    rfl
  split
  · exact nofun
  split
  · rintro search' ⟨⟩
    rfl
  split
  · rw [acceptNode_eq]
    split
    · exact nofun
    · rintro search' ⟨⟩
      rfl
  · simp_all [needsSplit]

theorem precision_visitNode (space : SearchSpace α) (search : Search α) (branch : Branch α)
    (t : Tableau α) :
    (finalState (visitNode space search branch t)).precision = t.precision := by
  rw [visitNode_eq]
  split
  · rfl
  split
  · rfl
  split
  · rfl
  split
  · rw [acceptNode_eq]
    split <;> rfl
  · rw [splitNode_eq]
    have hsaved : (if search.nodes == 1 then t.save else t).precision = t.precision := by
      split <;> rfl
    dsimp only
    split <;> exact hsaved

/-- A turn that goes on dropped the branch it took up, or solved and visited it. -/
theorem goesOn_cases (hturn : turn space effort state = .goesOn next) :
    ∃ branch branches, state.search.branches = branch :: branches ∧
      (next = ⟨{ state.search with branches := branches }, state.tableau⟩ ∨
        ∃ t search, search.branches = branches ∧
          solveBranch space effort branch.cuts state.tableau = .ok () t ∧
          visitNode space search branch t = .ok (.continue next.search) next.tableau ∧
          expansion? space effort state =
            if needsSplit space search t then
              (t.branchingVariable? space.options.branching space.integers).map fun found =>
                ⟨branch, t, found.1, found.2⟩
            else none) := by
  unfold turn at hturn
  split at hturn
  · exact nomatch hturn
  next branch branches hbranches =>
  dsimp only at hturn
  split at hturn
  · exact nomatch hturn
  next hgoesOn =>
  refine ⟨branch, branches, hbranches, ?_⟩
  split at hturn
  · rw [Turn.goesOn.injEq] at hturn
    exact .inl hturn.symm
  next hbetter =>
  right
  cases hsolve : solveBranch space effort branch.cuts state.tableau with
  | error fault t =>
    rw [bind_of_error hsolve] at hturn
    exact nomatch hturn
  | ok result t =>
    rw [bind_of_ok hsolve] at hturn
    refine ⟨t, { state.search with branches := branches, nodes := state.search.nodes + 1 }, rfl,
      rfl, ?_, ?_⟩
    · generalize visitNode space _ branch t = outcome at hturn ⊢
      unfold turnAfter at hturn
      split at hturn
      · rw [Turn.goesOn.injEq] at hturn
        rw [← hturn]
      · exact nomatch hturn
    · simp only [expansion?, hbranches, hsolve]
      rw [if_neg hgoesOn, if_neg hbetter]

/-- A turn that goes on without expanding a node only removes a branch. -/
theorem branches_of_goesOn (hturn : turn space effort state = .goesOn next)
    (hnone : expansion? space effort state = none) :
    ∃ branch, state.search.branches = branch :: next.search.branches := by
  obtain ⟨branch, branches, hbranches, rfl | ⟨t, search, hsearch, -, hvisit, hexpansion⟩⟩ :=
    goesOn_cases hturn
  · exact ⟨branch, hbranches⟩
  refine ⟨branch, ?_⟩
  rw [hexpansion] at hnone
  cases hsplit : needsSplit space search t with
  | false =>
    have hkept := (visitNode_of_not_needsSplit hsplit branch).of_ok hvisit next.search rfl
    rw [hbranches, hkept, hsearch]
  | true =>
    rw [hsplit, if_pos rfl, Option.map_eq_none_iff] at hnone
    rw [visitNode_of_needsSplit hsplit, hnone] at hvisit
    exact nomatch hvisit

theorem precision_of_goesOn (hturn : turn space effort state = .goesOn next) :
    next.tableau.precision = state.tableau.precision := by
  obtain ⟨branch, branches, -, rfl | ⟨t, search, -, hsolve, hvisit, -⟩⟩ := goesOn_cases hturn
  · rfl
  · have hsolved := precision_solveBranch space effort branch.cuts state.tableau
    have hvisited := precision_visitNode space search branch t
    rw [hsolve] at hsolved
    rw [hvisit] at hvisited
    exact hvisited.trans hsolved

/-- A turn that expands a node opens the two parts of its branch. -/
theorem turn_of_expansion? {node : Expansion α} (h : expansion? space effort state = some node) :
    ∃ branches, state.search.branches = node.branch :: branches ∧
      solveBranch space effort node.branch.cuts state.tableau = .ok () node.solved ∧
      node.solved.branchingVariable? space.options.branching space.integers =
        some (node.index, node.value) ∧
      turn space effort state = .goesOn
        ⟨Search.split { state.search with branches := branches, nodes := state.search.nodes + 1 }
            space.options.nodeSelection node.branch node.solved.objectiveValue node.index
            node.value,
          if state.search.nodes + 1 == 1 then node.solved.save else node.solved⟩ := by
  unfold expansion? at h
  split at h
  · exact nomatch h
  next branch branches hbranches =>
  dsimp only at h
  split at h
  · exact nomatch h
  next hgoesOn =>
  split at h
  · exact nomatch h
  next hbetter =>
  split at h
  · exact nomatch h
  next t hsolve =>
  split at h
  · next hsplit =>
    obtain ⟨⟨index, value⟩, hfound, rfl⟩ := Option.map_eq_some_iff.1 h
    refine ⟨branches, hbranches, hsolve, hfound, ?_⟩
    rw [turn, hbranches]
    dsimp only
    rw [if_neg hgoesOn, if_neg hbetter, bind_of_ok hsolve, visitNode_of_needsSplit hsplit, hfound]
    rfl
  · exact nomatch h

end Turns

/-! ## A whole search -/

section Searches

variable {space : SearchSpace Rat} {effort : Effort} {state next : LoopState Rat}
  {node : Expansion Rat} {precision : Rat}

/-- What every turn of a search preserves. -/
structure LoopState.IsTidy (precision : Rat) (state : LoopState Rat) : Prop where
  precision_eq : state.tableau.precision = precision
  branches : ∀ branch ∈ state.search.branches, branch.IsTidy

theorem LoopState.IsTidy.of_goesOn (h : state.IsTidy precision)
    (hturn : turn space effort state = .goesOn next) : next.IsTidy precision where
  precision_eq := (precision_of_goesOn hturn).trans h.precision_eq
  branches := by
    cases hexpansion : expansion? space effort state with
    | none =>
      obtain ⟨branch, hbranches⟩ := branches_of_goesOn hturn hexpansion
      intro other hother
      apply h.branches
      rw [hbranches]
      exact List.mem_cons_of_mem branch hother
    | some node =>
      obtain ⟨branches, hbranches, -, -, hgoesOn⟩ := turn_of_expansion? hexpansion
      rw [hgoesOn, Turn.goesOn.injEq] at hturn
      have htidy := h.branches
      rw [hbranches, List.forall_mem_cons] at htidy
      intro other hother
      rw [← hturn] at hother
      rcases Search.mem_branches_split.1 hother with rfl | rfl | hopen
      · exact htidy.1.cutsWith ⟨.atMost, node.index, Scalar.floor node.value⟩
          (isWhole_floor node.value) _
      · exact htidy.1.cutsWith ⟨.atLeast, node.index, Scalar.ceil node.value⟩
          (isWhole_ceil node.value) _
      · exact htidy.2 other hopen

theorem LoopState.IsTidy.of_mem_loopStates {first : LoopState Rat} (h : first.IsTidy precision)
    {budget : Nat} (hstate : state ∈ loopStates space effort budget first) :
    state.IsTidy precision := by
  induction budget generalizing first with
  | zero =>
    rw [List.mem_singleton.1 hstate]
    exact h
  | succ budget ih =>
    rcases List.mem_cons.1 hstate with rfl | hlater
    · exact h
    cases hturn : turn space effort first with
    | ends outcome =>
      rw [hturn] at hlater
      exact absurd hlater List.not_mem_nil
    | goesOn next =>
      rw [hturn] at hlater
      exact ih (h.of_goesOn hturn) hlater

/-- A node is expanded at a value of its solution that is not near an integer. -/
theorem Expansion.far (h : expansion? space effort state = some node) :
    node.solved.dictionary.valueOf node.index = node.value ∧
      ∀ n : ℤ, node.solved.precision < |node.value - n| := by
  obtain ⟨-, -, -, hfound, -⟩ := turn_of_expansion? h
  obtain ⟨⟨r, hrow, hvalue⟩, hfar⟩ := isFractional_of_branchingVariable? hfound
  rw [distanceToInteger, scalar_abs_eq] at hfar
  constructor
  · rw [Dictionary.valueOf, hrow]
    exact hvalue
  · intro n
    exact hfar.trans_le (abs_sub_roundRat_le_abs_sub node.value n)

/-- In every state of a search all open branches are tidy.  A node that is expanded opens two
parts of its branch, and where its solution respects the cuts of the branch up to the
precision, the integral points of the branch are divided among these parts and the solution
is in neither. -/
theorem branching_divides {t : Tableau Rat} (hprecision : 0 ≤ t.precision)
    (space : SearchSpace Rat) (effort : Effort) (budget : Nat) :
    ∀ state ∈ loopStates space effort budget ⟨Search.start, t⟩,
      (∃ rest ≤ budget, explore space effort budget Search.start t =
        explore space effort rest state.search state.tableau) ∧
      (∀ branch ∈ state.search.branches, branch.IsTidy) ∧
      ∀ node, expansion? space effort state = some node →
        (∃ branches next, state.search.branches = node.branch :: branches ∧
          turn space effort state = .goesOn next ∧
          ∀ branch, branch ∈ next.search.branches ↔
            branch = node.low ∨ branch = node.high ∨ branch ∈ branches) ∧
        node.solved.dictionary.valueOf node.index = node.value ∧
        ((∀ cut ∈ node.branch.cuts, cut.HoldsWithin t.precision node.solved.dictionary.valueOf) →
          node.branch.IsDivided node.low node.high node.index
            node.solved.dictionary.valueOf) := by
  intro state hstate
  have hstart : LoopState.IsTidy t.precision ⟨Search.start, t⟩ := by
    refine ⟨rfl, ?_⟩
    intro branch hbranch
    rw [List.mem_singleton.1 hbranch]
    exact ⟨List.forall_mem_nil _, .nil⟩
  have htidy := hstart.of_mem_loopStates hstate
  refine ⟨explore_of_mem_loopStates hstate, htidy.branches, ?_⟩
  intro node hnode
  obtain ⟨branches, hbranches, hsolve, -, hturn⟩ := turn_of_expansion? hnode
  obtain ⟨hvalue, hfar⟩ := Expansion.far hnode
  refine ⟨⟨branches, _, hbranches, hturn, fun branch => Search.mem_branches_split⟩, hvalue, ?_⟩
  intro hwithin
  have hsolved : node.solved.precision = t.precision := by
    have hkept := precision_solveBranch space effort node.branch.cuts state.tableau
    rw [hsolve] at hkept
    exact hkept.trans htidy.precision_eq
  have hbranch := htidy.branches node.branch (by rw [hbranches]; exact List.mem_cons_self)
  rw [hsolved, ← hvalue] at hfar
  have hdivided := hbranch.isDivided hprecision hfar hwithin node.solved.objectiveValue
  rw [hvalue] at hdivided
  exact hdivided

end Searches

/-- Two integer variables of which twice the sum is at most five. -/
def twoHalves : Tableau Rat :=
  { blank (1 / 100) with
    dictionary :=
      { matrix := #[#[0, 3, 2], #[5, 2, 2]]
        basic := #[none, some 2]
        nonBasic := #[none, some 0, some 1]
        rowOf := ⟨#[none, none, some 1]⟩
        columnOf := ⟨#[some 1, some 2]⟩
        secondary := [] }
    pool := ⟨[], 3⟩
    arena := #[some (.declare "x" (-3) 0 .required .integer false),
      some (.declare "y" (-2) 1 .required .integer false), some (.slack 2)] }

/-- The search branches on the first variable, on the second and on the first again, where it
drops the bound from the first time. -/
theorem branching_divides_twoHalves :
    let space : SearchSpace Rat :=
      ⟨[0, 1], [0, 1], true, { Options.standard with nodeSelection := .depthFirst }⟩
    let effort : Effort := ⟨8, 0, 8, fun _ => 0⟩
    ∃ state ∈ loopStates space effort 8 ⟨Search.start, twoHalves⟩, ∃ node,
      expansion? space effort state = some node ∧
      node.branch.cuts = [⟨.atMost, 0, 2⟩, ⟨.atLeast, 1, 1⟩] ∧
      node.index = 0 ∧ node.solved.dictionary.valueOf 0 = 3 / 2 ∧
      node.low.cuts = [⟨.atLeast, 1, 1⟩, ⟨.atMost, 0, 1⟩] ∧
      node.high.cuts = [⟨.atMost, 0, 2⟩, ⟨.atLeast, 1, 1⟩, ⟨.atLeast, 0, 2⟩] ∧
      (∀ branch ∈ state.search.branches, branch.IsTidy) ∧
      node.branch.IsDivided node.low node.high node.index node.solved.dictionary.valueOf := by
  intro space effort
  have hsearch : ((loopStates space effort 8 ⟨Search.start, twoHalves⟩).any fun state =>
      (expansion? space effort state).any fun node =>
        node.branch.cuts = [⟨.atMost, 0, 2⟩, ⟨.atLeast, 1, 1⟩] ∧
        node.index = 0 ∧ node.solved.dictionary.valueOf 0 = 3 / 2 ∧
        node.low.cuts = [⟨.atLeast, 1, 1⟩, ⟨.atMost, 0, 1⟩] ∧
        node.high.cuts = [⟨.atMost, 0, 2⟩, ⟨.atLeast, 1, 1⟩, ⟨.atLeast, 0, 2⟩] ∧
        ∀ cut ∈ node.branch.cuts,
          cut.HoldsWithin twoHalves.precision node.solved.dictionary.valueOf) = true := by
    decide +kernel
  obtain ⟨state, hstate, hany⟩ := List.any_eq_true.1 hsearch
  obtain ⟨node, hnode, hfacts⟩ := (Option.any_eq_true _ _).1 hany
  obtain ⟨hcuts, hindex, hvalue, hlow, hhigh, hwithin⟩ := of_decide_eq_true hfacts
  obtain ⟨-, htidy, hexpansions⟩ := branching_divides
    (by decide +kernel : 0 ≤ twoHalves.precision) space effort 8 state hstate
  obtain ⟨-, -, hdivided⟩ := hexpansions node hnode
  exact ⟨state, hstate, node, hnode, hcuts, hindex, hvalue, hlow, hhigh, htidy,
    hdivided hwithin⟩

end Tableau

end MixedInteger
