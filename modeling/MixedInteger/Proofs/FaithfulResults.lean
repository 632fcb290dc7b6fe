import MixedInteger.Proofs.BasisInvariant
import MixedInteger.Proofs.CompactForm
import MixedInteger.Proofs.Describing
import MixedInteger.Proofs.SolveTwice

/-!
# Faithful results

The variables of a description, its relaxations and the verdict share the names of one object.
A solve makes no variable but slacks, so what the compact form shows under a name belongs to a
declared variable or to the verdict, however many solves and rounding cuts came before.  Where
a variable of the description has its name for itself, its value is shown as it is.
-/

namespace MixedInteger

/-! ## Solves declare nothing -/

namespace Tableau

variable {α : Type}

/-- All variables but slacks are in a list. -/
def DeclaresWithin (indices : List Nat) (t : Tableau α) : Prop :=
  ∀ index, t.isSlack? index = some false → index ∈ indices

namespace DeclaresWithin

variable {indices : List Nat} {t t' : Tableau α}

theorem of_arena (h : t.DeclaresWithin indices) (harena : t'.arena = t.arena) :
    t'.DeclaresWithin indices := by
  intro index hindex
  apply h
  rw [isSlack?, lookup?, ← harena]
  exact hindex

/-- Returning to a snapshot only forgets variables. -/
theorem restore (h : t.DeclaresWithin indices) : t.restore.DeclaresWithin indices := by
  cases hsnapshot : t.snapshot with
  | none =>
    unfold Tableau.restore
    rw [hsnapshot]
    exact h
  | some snapshot =>
    intro index hindex
    rw [isSlack?, lookup?_restore hsnapshot] at hindex
    split at hindex
    · exact h index hindex
    · cases hindex

theorem discardSearch (h : t.DeclaresWithin indices) : t.discardSearch.DeclaresWithin indices :=
  h.restore.of_arena rfl

variable [Scalar α]

theorem registerSlack (h : t.DeclaresWithin indices) :
    t.registerSlack.2.DeclaresWithin indices := by
  intro index hindex
  have hlookup : t.registerSlack.2.lookup? index = _ := lookup?_register rfl index
  rw [isSlack?, hlookup] at hindex
  split at hindex
  · cases hindex
  · exact h index hindex

theorem pushCutRow (h : t.DeclaresWithin indices) (row : Array α) :
    (t.pushCutRow row).DeclaresWithin indices :=
  h.registerSlack.of_arena rfl

theorem addCuts (h : t.DeclaresWithin indices) (cuts : List (Cut α)) :
    (finalState (Tableau.addCuts cuts t)).DeclaresWithin indices := by
  apply Ends.finalState
  apply Ends.forM addCut (DeclaresWithin indices) (fun _ => DeclaresWithin indices) cuts _ t h
  intro cut _ t' ht'
  rw [addCut_run]
  split
  · exact ht'.pushCutRow _
  · exact ht'.registerSlack

theorem simplex (h : t.DeclaresWithin indices) (effort : Effort) :
    (finalState (Tableau.simplex effort t)).DeclaresWithin indices :=
  h.of_arena (simplex_onlyPivots effort t).1.arena

theorem solveBranch (h : t.DeclaresWithin indices) (space : SearchSpace α) (effort : Effort)
    (cuts : List (Cut α)) :
    (finalState (Tableau.solveBranch space effort cuts t)).DeclaresWithin indices := by
  have hadded := h.restore.addCuts cuts
  cases hadd : Tableau.addCuts cuts t.restore with
  | error fault t' =>
    rw [hadd] at hadded
    rw [solveBranch_of_error hadd]
    exact hadded
  | ok result t' =>
    rw [hadd] at hadded
    apply solveBranch_kept (DeclaresWithin indices) effort hadd (hadded.simplex effort)
    intro t'' ht''
    apply roundingRounds_kept (DeclaresWithin indices) _ ht''
    intro source _ _ hsource
    exact (addRoundingCuts_pushed (DeclaresWithin indices) (fun _ row ht => ht.pushCutRow row)
      hsource space.integers).simplex effort

end DeclaresWithin

section Searches

variable [Scalar α] {indices : List Nat} {t : Tableau α} {space : SearchSpace α}

/-- A node changes flags and takes a snapshot. -/
theorem arena_visitNode (search : Search α) (branch : Branch α) (t : Tableau α) :
    (finalState (visitNode space search branch t)).arena = t.arena := by
  rw [visitNode_eq]
  split
  · rfl
  split
  · rfl
  split
  · rfl
  split
  · rw [acceptNode_eq]
    split <;> rfl
  · rw [splitNode_eq]
    have hsaved : (if search.nodes == 1 then t.save else t).arena = t.arena := by
      split <;> rfl
    dsimp only
    split <;> exact hsaved

theorem explore_declaresWithin (h : t.DeclaresWithin indices) (effort : Effort) (budget : Nat)
    (search : Search α) :
    (finalState (explore space effort budget search t)).DeclaresWithin indices := by
  induction budget generalizing search t with
  | zero => exact h
  | succ budget ih =>
    rw [explore_succ]
    cases search.branches with
    | nil => exact h
    | cons branch branches =>
      dsimp only
      split
      · exact h
      split
      · exact ih h _
      · apply Ends.finalState
        apply Ends.bind (Ends.of_finalState (h.solveBranch space effort branch.cuts))
        intro _ t' ht'
        apply Ends.bind (Ends.of_finalState (ht'.of_arena (arena_visitNode _ branch t')))
        intro outcome t'' ht''
        cases outcome with
        | «continue» search' => exact Ends.of_finalState (ih ht'' search')
        | final search' => exact ht''

theorem finishSearch_declaresWithin (h : t.DeclaresWithin indices) (effort : Effort)
    (search : Search α) :
    (finalState (finishSearch space effort search t)).DeclaresWithin indices := by
  cases hincumbent : search.incumbent with
  | none =>
    rw [finishSearch_of_none effort hincumbent]
    exact h.restore.of_arena rfl
  | some incumbent =>
    unfold finishSearch
    rw [hincumbent]
    apply Ends.finalState
    apply Ends.bind (Ends.of_finalState (h.solveBranch space effort incumbent.branch.cuts))
    intro _ t' ht'
    exact ht'.of_arena rfl

theorem branchAndCut_declaresWithin (h : t.DeclaresWithin indices) (space : SearchSpace α)
    (effort : Effort) :
    (finalState (branchAndCut space effort t)).DeclaresWithin indices := by
  unfold branchAndCut
  apply Ends.finalState
  apply Ends.bind (Ends.of_finalState
    (explore_declaresWithin h effort effort.branches Search.start))
  intro outcome t' ht'
  cases outcome with
  | final search => exact ht'
  | «continue» search =>
    apply Ends.bind (Ends.of_finalState (finishSearch_declaresWithin ht' effort search))
    intro _ t'' ht''
    exact ht''

/-! ## Solves of a tableau -/

theorem DeclaresWithin.of_sameView {t' : Tableau α} (h : t.DeclaresWithin indices)
    (hview : SameView Variable.traits t t') : t'.DeclaresWithin indices := by
  intro index hindex
  apply h
  rw [← isSlack?_of_traits? (hview.view_eq index)]
  exact hindex

/-- However a solve ends, the only variables it made are slacks. -/
theorem solve_declaresWithin (h : t.discardSearch.DeclaresWithin indices)
    (space : SearchSpace α) (effort : Effort) :
    (finalState (solve space effort t)).DeclaresWithin indices := by
  have hready : (t.readied space).DeclaresWithin indices := h.of_arena rfl
  cases hempty : space.integers.isEmpty with
  | true =>
    have hsimplex := hready.simplex effort
    rw [solve_of_no_integers (List.isEmpty_iff.1 hempty)]
    cases houtcome : simplex effort (t.readied space) with
    | ok result t' =>
      rw [houtcome] at hsimplex
      exact hsimplex.of_sameView (sameView_updateValues t' space.indices)
    | error fault t' =>
      rw [houtcome] at hsimplex
      exact hsimplex
  | false =>
    have hsearch := branchAndCut_declaresWithin hready space effort
    rw [solve_of_integers hempty]
    cases houtcome : branchAndCut space effort (t.readied space) with
    | ok kept t' =>
      rw [houtcome] at hsearch
      rw [bind_of_ok houtcome]
      exact hsearch.of_sameView (sameView_updateValues t' space.indices)
    | error fault t' =>
      rw [houtcome] at hsearch
      rw [bind_of_error houtcome]
      exact hsearch

/-- However a solve ends, with rounding cuts or without, the tableau is sound, and so is the
one that it returns to. -/
theorem solve_isSound (hsound : t.discardSearch.IsSound)
    (hintegers : ∀ index ∈ space.integers, t.discardSearch.dictionary.Mentions index)
    (effort : Effort) :
    (finalState (solve space effort t)).IsSound ∧
      (finalState (solve space effort t)).discardSearch.IsSound ∧
      (finalState (solve space effort t)).precision = t.precision := by
  have hready : (t.readied space).IsSound := hsound.of_eq rfl rfl rfl
  have hgrown := isGrownFrom_firstNode space effort hready rfl
  have hprecision : ((t.readied space).firstNode space effort).precision = t.precision :=
    hgrown.precision.trans (precision_discardSearch t)
  obtain ⟨t', hback, hview⟩ := solve_leadsBack hsound hintegers effort
  cases hback with
  | same frame dictionary =>
    have hsound' : t'.IsSound := hgrown.sound.of_eq dictionary frame.pool frame.arena
    have hroot : t'.discardSearch = t' :=
      discardSearch_eq_self (frame.snapshot.trans hgrown.snapshot)
    refine ⟨hview.isSound hsound', hview.discardSearch.isSound ?_, ?_⟩
    · rw [hroot]
      exact hsound'
    · exact hview.precision.trans (frame.precision.trans hprecision)
  | search h =>
    exact ⟨hview.isSound h.sound, hview.discardSearch.isSound (h.sound_discardSearch hgrown.sound),
      hview.precision.trans (h.precision.trans hprecision)⟩

/-- A solve that succeeds reports the tableau it leaves behind, in which the declared variables
have their values. -/
theorem solve_isUpdated {solution : Solution α} {t' : Tableau α} {effort : Effort}
    (hsolve : solve space effort t = .ok solution t') :
    (∃ kept, solution = t'.solution space kept) ∧ t'.IsUpdated space.indices := by
  cases hempty : space.integers.isEmpty with
  | true =>
    rw [solve_of_no_integers (List.isEmpty_iff.1 hempty)] at hsolve
    cases houtcome : simplex effort (t.readied space) with
    | ok result final =>
      rw [houtcome] at hsolve
      injection hsolve with hsolution hfinal
      subst hsolution hfinal
      exact ⟨⟨[], rfl⟩, isUpdated_updateValues final space.indices⟩
    | error fault final =>
      rw [houtcome] at hsolve
      cases hsolve
  | false =>
    rw [solve_of_integers hempty] at hsolve
    cases houtcome : branchAndCut space effort (t.readied space) with
    | ok kept final =>
      rw [bind_of_ok houtcome] at hsolve
      injection hsolve with hsolution hfinal
      subst hsolution hfinal
      exact ⟨⟨kept, rfl⟩, isUpdated_updateValues final space.indices⟩
    | error fault final =>
      rw [bind_of_error houtcome] at hsolve
      cases hsolve

end Searches

end Tableau

/-! ## Models that can be read off -/

namespace Model

variable {α : Type} [Scalar α] {model solved : Model α} {precision : α}

/-- Once it is loaded, the tableau of a model is sound and has no names but those of the
declared variables. -/
structure IsReadable (precision : α) (model : Model α) : Prop where
  orderly : model.IsOrderly
  sound : model.ready.root.IsSound
  declares : model.ready.root.DeclaresWithin model.indices
  integers_mem : ∀ index ∈ model.integers, index ∈ model.indices
  precision_eq : model.ready.tableau.precision = precision

omit [Scalar α] in
/-- A pending search knows the declared variables as they are known outside it. -/
theorem IsOrderly.lookup?_eq (h : model.IsOrderly) {index : Nat} (hindex : index ∈ model.indices) :
    model.lookup? index = model.root.lookup? index := by
  rw [lookup?, if_pos (List.contains_iff_mem.2 hindex), root,
    Tableau.lookup?_discardSearch_of_isSome
      (Tableau.isSome_of_isSlack? (h.variable_known index hindex))]

theorem IsOrderly.name?_eq (h : model.IsOrderly) {index : Nat} (hindex : index ∈ model.indices) :
    model.name? index = (model.root.traits? index).map Variable.name := by
  rw [name?, h.lookup?_eq hindex, Tableau.traits?, Option.map_map]
  rfl

/-- However a solve ends, the model can be read off afterwards, and so can its tableau while
the search is pending. -/
theorem IsReadable.solve (h : model.IsReadable precision) (effort : Effort) :
    (finalState (Model.solve effort model)).IsReadable precision ∧
      (finalState (Model.solve effort model)).tableau.IsSound ∧
      (finalState (Model.solve effort model)).tableau.DeclaresWithin model.indices ∧
      (finalState (Model.solve effort model)).indices = model.indices := by
  have hcarries : Carries (fun _ => True) model (finalState (Model.solve effort model)) :=
    solve_carries h.orderly effort
  obtain ⟨hsolve, (hready : Carries (fun _ => True) model model.ready), hsame⟩ :=
    h.orderly.ready_eq effort
  have hindices : model.ready.indices = model.indices := by rw [hsame]
  have hintegers : model.ready.integers = model.integers := by rw [hsame]
  have hmentions : ∀ index ∈ model.ready.searchSpace.integers,
      model.ready.root.dictionary.Mentions index := by
    intro index hindex
    have hmem : index ∈ model.ready.indices := by
      rw [hindices]
      exact h.integers_mem index (hintegers ▸ hindex)
    exact (h.sound.mentions_iff index).2
      (Tableau.isSome_of_isSlack? (hready.orderly.variable_known index hmem))
  obtain ⟨hsound, hroot, hprecision⟩ := Tableau.solve_isSound h.sound hmentions effort
  have hdeclares := Tableau.solve_declaresWithin h.declares model.ready.searchSpace effort
  have hagain (t : Tableau α) : ({ model.ready with tableau := t } : Model α).ready =
      { model.ready with tableau := t } := ready_of_loaded (by rw [hsame])
  rw [hsolve, finalState_onTableau] at hcarries ⊢
  refine ⟨⟨hcarries.orderly, ?_, ?_, ?_, ?_⟩, hsound, hdeclares, hindices⟩
  · rw [hagain]
    exact hroot
  · rw [hagain]
    exact hindices ▸ hdeclares.discardSearch
  · intro index hindex
    rw [hintegers] at hindex
    rw [hindices]
    exact h.integers_mem index hindex
  · rw [hagain]
    exact hprecision.trans h.precision_eq

/-- After any number of solves a model still can be read off, and its variables have their
names. -/
theorem IsReadable.after_solves (h : model.IsReadable precision) (efforts : List Effort) :
    (Operation.after model (efforts.map .solve)).IsReadable precision ∧
      (Operation.after model (efforts.map .solve)).indices = model.indices ∧
      ∀ index ∈ model.indices,
        (Operation.after model (efforts.map .solve)).name? index = model.name? index := by
  induction efforts generalizing model with
  | nil => exact ⟨h, rfl, fun _ _ => rfl⟩
  | cons effort rest ih =>
    have hresult : Operation.result (.solve effort) model = finalState (Model.solve effort model) :=
      Operation.finalState_forEffect ..
    have hcarries : Carries (fun _ => True) model (finalState (Model.solve effort model)) :=
      solve_carries h.orderly effort
    obtain ⟨hreadable, -, -, hindices⟩ := h.solve effort
    obtain ⟨hafter, hindices', hnames⟩ := ih hreadable
    rw [List.map_cons, Operation.after, List.foldl_cons, hresult]
    refine ⟨hafter, hindices'.trans hindices, fun index hindex => ?_⟩
    have hmem : index ∈ (finalState (Model.solve effort model)).indices := by
      rw [hindices]
      exact hindex
    refine (hnames index hmem).trans ?_
    rw [hreadable.orderly.name?_eq hmem, hcarries.traits index hmem, h.orderly.name?_eq hindex]

omit [Scalar α] in
/-- The variables of a name are those that the tableau may list under it. -/
theorem IsOrderly.bears_iff (h : model.IsOrderly)
    (hdeclares : model.tableau.DeclaresWithin model.indices) {index : Nat} {name : String} :
    Tableau.Bears (model.tableau.lookup? index) name ↔
      index ∈ model.indices ∧ model.name? index = some name := by
  constructor
  · rintro ⟨data, hdata, hslack, rfl⟩
    have hindex : index ∈ model.indices := by
      apply hdeclares
      rw [Tableau.isSlack?, hdata, Option.map_some, hslack]
    refine ⟨hindex, ?_⟩
    rw [name?, lookup?, if_pos (List.contains_iff_mem.2 hindex), hdata]
    rfl
  · rintro ⟨hindex, hname⟩
    have hslack := h.variable_known index hindex
    rw [Tableau.isSlack?, ← h.lookup?_eq hindex] at hslack
    rw [name?] at hname
    rw [lookup?, if_pos (List.contains_iff_mem.2 hindex)] at hslack hname
    obtain ⟨data, hdata, hname⟩ := Option.map_eq_some_iff.1 hname
    rw [hdata, Option.map_some, Option.some.injEq] at hslack
    exact ⟨data, hdata, hslack, hname⟩

/-- The value of a variable after a solve is the one it has in the basic solution. -/
theorem value?_of_isUpdated (hupdated : model.tableau.IsUpdated model.indices) {index : Nat}
    {name : String} (hindex : index ∈ model.indices) (hname : model.name? index = some name) :
    model.value? index =
      some (model.tableau.round (model.tableau.dictionary.valueOf index)) := by
  obtain ⟨data, hdata, -⟩ := Option.map_eq_some_iff.1 hname
  rw [value?, hdata, Option.map_some]
  rw [lookup?, if_pos (List.contains_iff_mem.2 hindex)] at hdata
  rw [hupdated index hindex data hdata]

end Model

/-! ## What the compact form says about a model -/

/-- The values of a solution are those of the variables of a model: under a name stands the
value of a variable with the name, and variables whose name is missing are zero. -/
structure Solution.Presents (solution : Solution Float) (model : Model Float) : Prop where
  keys_nodup : solution.values.keys.Nodup
  listed : ∀ name,
    (∃ index ∈ model.indices, model.name? index = some name ∧
        ∃ value, model.value? index = some value ∧ solution.values.get? name = some value) ∨
      solution.values.get? name = none ∧
        ∀ index ∈ model.indices, model.name? index = some name → model.value? index = some 0

namespace Model

variable {model solved : Model Float} {solution : Solution Float} {effort : Effort}

/-- A variable that is not basic is zero. -/
theorem round_zero {t : Tableau Float} (hprecision : t.precision = standardPrecision) :
    t.round 0 = 0 := by
  rw [Tableau.round, hprecision]
  decide +kernel

/-- A solve that succeeds presents the model that it leaves behind. -/
theorem IsReadable.presents (h : model.IsReadable standardPrecision)
    (hsolve : Model.solve effort model = .ok solution solved) : solution.Presents solved := by
  obtain ⟨htableau, hspace, hloaded⟩ := h.orderly.solve_eq_ok hsolve
  obtain ⟨⟨kept, hkept⟩, hupdated⟩ := Tableau.solve_isUpdated htableau
  have hfinal : finalState (Model.solve effort model) = solved := by
    rw [hsolve]
    rfl
  obtain ⟨hreadable, hsound, hdeclares, hindices⟩ := h.solve effort
  rw [hfinal] at hreadable hsound hdeclares hindices
  rw [← hspace] at hupdated
  rw [← hindices] at hdeclares
  have hvalues : solution.values = solved.tableau.basicSolution := congrArg Solution.values hkept
  have hprecision : solved.tableau.precision = standardPrecision := by
    rw [← hreadable.precision_eq, ready_of_loaded hloaded]
  refine ⟨hvalues ▸ Tableau.nodup_keys_basicSolution solved.tableau, fun name => ?_⟩
  rw [hvalues]
  rcases hsound.get?_basicSolution name with ⟨index, hbears, hget⟩ | ⟨hnone, hzero⟩
  · obtain ⟨hindex, hname⟩ := (hreadable.orderly.bears_iff hdeclares).1 hbears
    exact .inl ⟨index, hindex, hname, _, value?_of_isUpdated hupdated hindex hname, hget⟩
  · refine .inr ⟨hnone, fun index hindex hname => ?_⟩
    have hbears := (hreadable.orderly.bears_iff hdeclares).2 ⟨hindex, hname⟩
    rw [value?_of_isUpdated hupdated hindex hname, hzero index hbears]
    exact congrArg some (round_zero hprecision)

end Model

/-- The verdict has its three fields. -/
theorem Solution.get?_verdictFields {solution : Solution Float} {field : String × Json}
    (hfield : field ∈ [("feasible", Json.bool solution.isFeasible),
      ("result", evaluationJson solution.evaluation), ("bounded", Json.bool solution.isBounded)]) :
    solution.verdictFields.get? field.1 = some field.2 := by
  simp only [List.mem_cons, List.not_mem_nil, or_false] at hfield
  unfold verdictFields
  rcases hfield with rfl | rfl | rfl <;> cases solution.isKnownIntegral <;>
    simp [OrderedMap.get?_insert, OrderedMap.get?_cons]

namespace Solution.Presents

variable {model : Model Float} {solution : Solution Float} {name : String}

/-- A field of the verdict is there if no variable of its name has another value than zero. -/
theorem member?_of_zero (h : solution.Presents model)
    (hzero : ∀ index ∈ model.indices, model.name? index = some name →
      ∀ value ∈ model.value? index, value == 0) :
    solution.compactJson.member? name = solution.verdictFields.get? name := by
  rw [member?_compactJson h.keys_nodup]
  rcases h.listed name with ⟨index, hindex, hname, value, hvalue, hget⟩ | ⟨hnone, -⟩
  · have hskipped : (value != 0) = false := by
      rw [bne, hzero index hindex hname value hvalue]
      rfl
    rw [hget, Option.filter_some, hskipped]
    rfl
  · rw [hnone]
    rfl

section Unique

variable {index : Nat} {value : Float} (h : solution.Presents model)
  (hindex : index ∈ model.indices) (hname : model.name? index = some name)
  (hvalue : model.value? index = some value)
  (hunique : ∀ other ∈ model.indices, model.name? other = some name → other = index)

include h hvalue hunique

/-- A variable that has its name for itself is left out if it is zero. -/
theorem member?_of_unique_zero (hzero : value == 0) :
    solution.compactJson.member? name = solution.verdictFields.get? name := by
  apply h.member?_of_zero
  intro other hother hname' value' hvalue'
  rw [hunique other hother hname', hvalue] at hvalue'
  rw [← Option.some.inj hvalue']
  exact hzero

include hindex hname

/-- A variable that has its name for itself is shown with its value if it is not zero. -/
theorem member?_of_unique (hnonzero : value != 0)
    (hfinite : ∀ entry ∈ solution.values, entry.2.isFinite = true) :
    solution.compactJson.member? name = some (.number (.real value)) := by
  have hget : solution.values.get? name = some value := by
    rcases h.listed name with ⟨other, hother, hname', value', hvalue', hget⟩ | ⟨-, hzero⟩
    · rw [hunique other hother hname', hvalue] at hvalue'
      rw [hget, hvalue']
    · rw [hzero index hindex hname, Option.some.injEq] at hvalue
      subst hvalue
      exact absurd hnonzero (by decide +kernel)
  rw [member?_compactJson h.keys_nodup, hget, Option.filter_some, if_pos hnonzero,
    Option.map_some, Json.ofFloat, if_pos (hfinite _ (OrderedMap.mem_of_get? hget))]
  rfl

end Unique

end Solution.Presents

/-! ## Results of a description -/

section Lists

variable {β γ δ : Type}

theorem exists_of_forall₂ {related : β → γ → Prop} {left : List β} {right : List γ}
    (h : List.Forall₂ related left right) {second : γ} (hsecond : second ∈ right) :
    ∃ first ∈ left, related first second := by
  induction h with
  | nil => cases hsecond
  | @cons first second' lefts rights hfirst hrest ih =>
    rcases List.mem_cons.1 hsecond with rfl | hlater
    · exact ⟨first, List.mem_cons_self, hfirst⟩
    · obtain ⟨found, hfound, hrelated⟩ := ih hlater
      exact ⟨found, List.mem_cons_of_mem _ hfound, hrelated⟩

theorem map_eq_map_of_forall₂ {first : β → δ} {second : γ → δ} {left : List β} {right : List γ}
    (h : List.Forall₂ (fun item other => first item = second other) left right) :
    left.map first = right.map second := by
  rw [← List.forall₂_eq_eq_eq, List.forall₂_map_left_iff, List.forall₂_map_right_iff]
  exact h

end Lists

namespace Model

variable {model : Model Float} {program : Program} {layout : Layout}

theorem Declaration.isSlack_toVariable {α : Type} [Scalar α] (declaration : Declaration α)
    (index : Nat) : (declaration.toVariable index).isSlack = false := by
  cases hinteger : declaration.isInteger <;>
    simp [toVariable, Variable.declare, Variable.isSlack, hinteger]

/-- Every variable of a program has been declared. -/
theorem Realises.exists_declaration (h : model.Realises program layout) {index : Nat}
    (hindex : index ∈ model.indices) :
    ∃ declaration : Declaration Float,
      model.lookup? index = some (declaration.toVariable index) := by
  rw [h.indices_eq] at hindex
  rcases List.mem_append.1 hindex with hrelaxer | howner
  · obtain ⟨demand, -, hrelaxes⟩ :=
      exists_of_forall₂ h.relaxers_fit (List.reduceOption_mem_iff.1 hrelaxer)
    obtain ⟨penalty, hpenalty⟩ := Option.isSome_iff_exists.1 hrelaxes.isSome_eq.symm
    obtain ⟨number, hlookup⟩ := hrelaxes.declared penalty hpenalty index rfl
    exact ⟨_, hlookup⟩
  · obtain ⟨declaration, -, hlookup⟩ := exists_of_forall₂ h.owners_fit howner
    exact ⟨declaration, hlookup⟩

theorem Fits.isSlack?_slack {α : Type} {model : Model α} {t : Tableau α} (h : Fits model t)
    {slack : Nat} (hslack : slack ∈ model.constraints.keys) : t.isSlack? slack = some true := by
  rw [Tableau.isSlack?_eq, h.slack_character slack hslack]
  rfl

theorem Realises.isOrderly (h : model.Realises program layout) : model.IsOrderly := by
  have hroot : model.root = model.tableau := root_eq h.snapshot_eq
  refine ⟨?_, h.indices_nodup, h.slacks_nodup, ?_, ?_, h.constraint_fits⟩
  · rw [hroot]
    exact h.pool
  · intro index hindex
    obtain ⟨declaration, hlookup⟩ := h.exists_declaration hindex
    rw [lookup?, if_pos (List.contains_iff_mem.2 hindex)] at hlookup
    rw [hroot, Tableau.isSlack?, hlookup, Option.map_some, declaration.isSlack_toVariable]
  · intro slack hslack
    rw [hroot]
    exact h.isSlack?_slack hslack

/-- The tableau of a sound model has no names but those of the declared variables. -/
theorem IsSound.declaresWithin {α : Type} {model : Model α} (h : model.IsSound) :
    model.root.DeclaresWithin model.indices := by
  intro index hindex
  rcases (h.root_fits.known_iff index).1 (Tableau.isSome_of_isSlack? hindex) with hmem | hslack
  · exact hmem
  · rw [root, h.root_fits.isSlack?_slack hslack] at hindex
    cases hindex

/-- The model of a description can be read off. -/
theorem Follows.isReadable {bounds : Bounds} (h : Follows bounds program layout model) :
    model.IsReadable standardPrecision := by
  have hsound := h.toIsQuiet.isSound
  obtain ⟨-, hready, hloaded, hsame⟩ := solve_eq hsound ⟨0, 0, 0, fun _ => 0⟩
  have hindices : model.ready.indices = model.indices := by rw [hsame]
  refine ⟨h.toRealises.isOrderly, hready.root_fits.sound hloaded, ?_, ?_, ?_⟩
  · rw [← hindices]
    exact hready.declaresWithin
  · intro index hindex
    rw [h.integers_eq] at hindex
    exact (List.mem_filter.1 hindex).1
  · obtain ⟨tableau, hload, hprecision, -⟩ := load_eq_ok hsound
    rw [ready_of_not_loaded h.unloaded, hload]
    exact hprecision.trans h.precision_eq

/-- The items have the names of their entries. -/
theorem Realises.name?_owners {objective : String} {json : Json}
    (h : model.Realises ((Program.described objective json).blindTo objective) layout) :
    layout.owners.map model.name? =
      ((json.entries "variables").map Prod.fst).map some := by
  have howners := h.owners_fit
  rw [Program.blindTo, Program.described, List.map_map, List.map_map,
    List.forall₂_map_left_iff] at howners
  rw [List.map_map]
  refine (map_eq_map_of_forall₂ (howners.imp fun entry owner hlookup => ?_)).symm
  rw [name?, hlookup]
  rfl

/-- There is one relaxation for each soft demand. -/
theorem Realises.length_reduceOption (h : model.Realises program layout) :
    layout.relaxers.reduceOption.length =
      program.demands.countP fun demand => demand.penalty.isSome := by
  have hflags : program.demands.map (fun demand => demand.penalty.isSome) =
      layout.relaxers.map Option.isSome :=
    map_eq_map_of_forall₂ (h.relaxers_fit.imp fun _ _ hrelaxes => hrelaxes.isSome_eq.symm)
  have hcount := congrArg (List.countP id) hflags
  rw [List.countP_map, List.countP_map] at hcount
  rw [List.reduceOption_length_eq, ← List.countP_eq_length_filter]
  exact hcount.symm

/-- The names that the relaxations of a description get. -/
def reservedNames (json : Json) : List String :=
  relaxationNames (((json.entries "constraints").flatMap Demand.ofEntry).countP fun demand =>
    demand.penalty.isSome)

/-- After any number of solves the relaxations and the items of a description have their
names. -/
theorem Follows.name?_after_solves {bounds : Bounds} {objective : String} {json : Json}
    (h : Follows bounds ((Program.described objective json).blindTo objective) layout model)
    (efforts : List Effort) {solved : Model Float}
    (hsolved : Operation.after model (efforts.map .solve) = solved) :
    solved.indices = layout.relaxers.reduceOption ++ layout.owners ∧
      layout.relaxers.reduceOption.map solved.name? = (reservedNames json).map some ∧
      layout.owners.map solved.name? = ((json.entries "variables").map Prod.fst).map some := by
  obtain ⟨-, hindices, hnames⟩ := h.isReadable.after_solves efforts
  rw [hsolved, h.indices_eq] at hindices hnames
  refine ⟨hindices, ?_, ?_⟩
  · rw [List.map_congr_left fun index hindex => hnames index (List.mem_append_left _ hindex),
      h.numbers.named, h.toRealises.length_reduceOption]
    rfl
  · rw [List.map_congr_left fun index hindex => hnames index (List.mem_append_right _ hindex),
      h.toRealises.name?_owners]

/-- Among distinct names and names that are none of some others, each belongs to one variable. -/
theorem eq_of_name?_eq {relaxers owners : List Nat} {reserved names : List String}
    (hindices : model.indices = relaxers ++ owners)
    (hrelaxers : relaxers.map model.name? = reserved.map some)
    (howners : owners.map model.name? = names.map some) (hnodup : names.Nodup) {index : Nat}
    {name : String} (hindex : index ∈ owners) (hname : model.name? index = some name)
    (hreserved : name ∉ reserved) :
    ∀ other ∈ model.indices, model.name? other = some name → other = index := by
  intro other hother hname'
  rw [hindices] at hother
  rcases List.mem_append.1 hother with hrelaxer | howner
  · have hnamed := List.mem_map_of_mem hrelaxer (f := model.name?)
    rw [hrelaxers, hname', List.mem_map_of_injective (Option.some_injective _)] at hnamed
    exact absurd hnamed hreserved
  · have hdistinct : (owners.map model.name?).Nodup := by
      rw [howners]
      exact hnodup.map (Option.some_injective _)
    exact List.inj_on_of_nodup_map hdistinct howner hindex (hname'.trans hname.symm)

/-- The compact form of every solution of a described model is faithful, apart from clashes of
names: a field of the verdict is there if no variable of its name has another value than zero,
and a variable of the description is there with its value just when it is not zero, if no
relaxation has its name and, where it is zero, no field of the verdict either. -/
theorem compactJson_after_solves {json : Json} {loaded solved : Model Float}
    {solution : Solution Float} {effort : Effort} (hproper : json.IsProper)
    (hloaded : ofJson json = .ok loaded) (earlier : List Effort)
    (hsolve : solve effort (Operation.after loaded (earlier.map .solve)) = .ok solution solved)
    (hfinite : ∀ entry ∈ solution.values, entry.2.isFinite = true) :
    ∃ relaxers owners, solved.indices = relaxers ++ owners ∧
      relaxers.map solved.name? = (reservedNames json).map some ∧
      owners.map solved.name? = ((json.entries "variables").map Prod.fst).map some ∧
      (∀ field ∈ [("feasible", Json.bool solution.isFeasible),
          ("result", Solution.evaluationJson solution.evaluation),
          ("bounded", Json.bool solution.isBounded)],
        (∀ index ∈ solved.indices, solved.name? index = some field.1 →
          ∀ value ∈ solved.value? index, value == 0) →
        solution.compactJson.member? field.1 = some field.2) ∧
      ∀ index ∈ owners, ∀ name value, solved.name? index = some name →
        solved.value? index = some value → name ∉ reservedNames json →
          (value != 0 → solution.compactJson.member? name = some (.number (.real value))) ∧
          (value == 0 → name ∉ solution.verdictFields.keys →
            solution.compactJson.member? name = none) := by
  obtain ⟨objective, bounds, layout, -, hfollows⟩ := exists_follows_of_ofJson hproper hloaded
  have hsolved : Operation.after loaded ((earlier ++ [effort]).map .solve) = solved := by
    rw [List.map_append, Operation.after, List.foldl_append]
    change finalState (Operation.forEffect (solve effort) (Operation.after _ _)) = solved
    rw [Operation.finalState_forEffect, hsolve]
    rfl
  have hpresents := (hfollows.isReadable.after_solves earlier).1.presents hsolve
  obtain ⟨hindices, hrelaxers, howners⟩ := hfollows.name?_after_solves (earlier ++ [effort]) hsolved
  refine ⟨_, _, hindices, hrelaxers, howners, ?_, ?_⟩
  · intro field hfield hzero
    rw [hpresents.member?_of_zero hzero, Solution.get?_verdictFields hfield]
  · intro index hindex name value hname hvalue hreserved
    have hmem : index ∈ solved.indices := by
      rw [hindices]
      exact List.mem_append_right _ hindex
    have hunique := eq_of_name?_eq hindices hrelaxers howners (hproper.entries "variables").1
      hindex hname hreserved
    refine ⟨fun hnonzero => ?_, fun hzero hverdict => ?_⟩
    · exact hpresents.member?_of_unique hmem hname hvalue hunique hnonzero hfinite
    · rw [hpresents.member?_of_unique_zero hvalue hunique hzero,
        OrderedMap.get?_eq_none_iff.2 hverdict]

/-- A description with one variable and a goal that it cannot reach. -/
def goalDescription (name : String) : Json :=
  .object [("optimize", .string "cost"), ("opType", .string "min"),
    ("constraints", .object [
      ("cap", .object [("min", .number (.whole 4))]),
      ("goal", .object [("min", .number (.whole 10)), ("priority", .number (.whole 1))])]),
    ("variables", .object [
      (name, .object [("cost", .number (.whole 1)), ("goal", .number (.whole 1)),
        ("cap", .number (.whole 1))])])]

def readings (model : Model Float) : List (Option String × Option Float) :=
  model.indices.map fun index => (model.name? index, model.value? index)

/-- The second solution shows the variable of the description as it is. -/
theorem compactJson_after_solves_goalDescription :
    (goalDescription "x").IsProper ∧ ∃ loaded solution solved,
      ofJson (goalDescription "x") = .ok loaded ∧
      solve ⟨8, 0, 0, fun _ => 0⟩
        (Operation.after loaded ([⟨8, 0, 0, fun _ => 0⟩].map .solve)) = .ok solution solved ∧
      solved.readings = [(some "r1", some 6), (some "x", some 4)] ∧
      (∀ entry ∈ solution.values, entry.2.isFinite = true) ∧
      solution.compactJson.member? "x" = some (.number (.real 4)) := by
  have hproper : (goalDescription "x").IsProper := by simp [goalDescription]
  have hrun : (match ofJson (goalDescription "x") with
      | .ok loaded => decide (Ends (solve ⟨8, 0, 0, fun _ => 0⟩
          (Operation.after loaded ([⟨8, 0, 0, fun _ => 0⟩].map .solve)))
          (fun solution solved => solved.readings = [(some "r1", some 6), (some "x", some 4)] ∧
            ∀ entry ∈ solution.values, entry.2.isFinite = true) fun _ _ => False)
      | .error _ => false) = true := by decide +kernel
  cases hloaded : ofJson (goalDescription "x") with
  | error fault =>
    rw [hloaded] at hrun
    cases hrun
  | ok loaded =>
    rw [hloaded] at hrun
    obtain ⟨solution, solved, hsolve, hreadings, hfinite⟩ := (of_decide_eq_true hrun).exists_ok
    refine ⟨hproper, loaded, solution, solved, rfl, hsolve, hreadings, hfinite, ?_⟩
    obtain ⟨relaxers, owners, hindices, hrelaxers, howners, -, hvariables⟩ :=
      compactJson_after_solves hproper hloaded _ hsolve hfinite
    have hreserved : reservedNames (goalDescription "x") = ["r1"] := by decide +kernel
    rw [hreserved] at hrelaxers hvariables
    obtain ⟨relaxer, rfl, -⟩ := List.map_eq_singleton_iff.1 hrelaxers
    obtain ⟨owner, rfl, hname⟩ := List.map_eq_singleton_iff.1 howners
    have hvalue : solved.value? owner = some 4 := by
      rw [readings, hindices, List.singleton_append, List.map_cons, List.map_singleton]
        at hreadings
      obtain ⟨-, hreading⟩ := List.cons.inj hreadings
      exact congrArg Prod.snd (List.singleton_inj.1 hreading)
    exact (hvariables owner List.mem_cons_self "x" 4 hname hvalue (by decide)).1 (by decide +kernel)

/-- A variable with the name of a relaxation is not shown: the relaxation is, in its place. -/
theorem compactJson_goalDescription_clash :
    (goalDescription "r1").IsProper ∧ ∃ loaded solution solved,
      ofJson (goalDescription "r1") = .ok loaded ∧
      solve ⟨8, 0, 0, fun _ => 0⟩ loaded = .ok solution solved ∧
      solved.readings = [(some "r1", some 6), (some "r1", some 4)] ∧
      (∀ entry ∈ solution.values, entry.2.isFinite = true) ∧
      solution.compactJson.member? "r1" = some (.number (.real 6)) := by
  have hproper : (goalDescription "r1").IsProper := by simp [goalDescription]
  have hrun : (match ofJson (goalDescription "r1") with
      | .ok loaded => decide (Ends (solve ⟨8, 0, 0, fun _ => 0⟩ loaded)
          (fun solution solved => solved.readings = [(some "r1", some 6), (some "r1", some 4)] ∧
            solution.values = [("r1", 6)]) fun _ _ => False)
      | .error _ => false) = true := by decide +kernel
  cases hloaded : ofJson (goalDescription "r1") with
  | error fault =>
    rw [hloaded] at hrun
    cases hrun
  | ok loaded =>
    rw [hloaded] at hrun
    obtain ⟨solution, solved, hsolve, hreadings, hvalues⟩ := (of_decide_eq_true hrun).exists_ok
    have hfinite : (6 : Float).isFinite = true := by decide +kernel
    have hnonzero : ((6 : Float) != 0) = true := by decide +kernel
    refine ⟨hproper, loaded, solution, solved, rfl, hsolve, hreadings, ?_, ?_⟩
    · rw [hvalues]
      intro entry hentry
      rw [List.mem_singleton.1 hentry]
      exact hfinite
    · have hget : solution.values.get? "r1" = some 6 := by
        rw [hvalues]
        rfl
      rw [Solution.member?_compactJson (by rw [hvalues]; exact List.nodup_singleton _), hget,
        Option.filter_some, if_pos hnonzero, Option.map_some, Json.ofFloat, if_pos hfinite]
      rfl

end Model

end MixedInteger
