import MixedInteger.Proofs.Loading
import MixedInteger.Proofs.Operation
import MixedInteger.Proofs.Validity

/-!
# The state of a model between operations

`Model.Fits` says how a model and its tableau belong together: the tableau knows
exactly the declared variables and the slacks of the constraints, each constraint
speaks of declared variables only, and a loaded tableau is sound.  A model is sound if
this holds of its tableau once a pending search is left.  Every operation is described
here by the model it leaves behind, and keeps the model sound.
-/

namespace MixedInteger

/-! ## Maps of constraints -/

namespace OrderedMap

variable {ν : Type} {map : OrderedMap Nat ν} {key : Nat}

theorem mem_of_get? {κ : Type} [BEq κ] [LawfulBEq κ] {map : OrderedMap κ ν} {key : κ} {value : ν}
    (hget : map.get? key = some value) : (key, value) ∈ map := by
  obtain ⟨entry, hfind, rfl⟩ := Option.map_eq_some_iff.1 hget
  have hkey : entry.1 = key := by simpa using List.find?_some hfind
  rw [← hkey]
  exact List.mem_of_find?_eq_some hfind

theorem mem_keys_of_get? {value : ν} (hget : map.get? key = some value) : key ∈ map.keys :=
  List.mem_map.2 ⟨(key, value), mem_of_get? hget, rfl⟩

theorem eq_of_mem {left right : ν} (hnodup : map.keys.Nodup) (hleft : (key, left) ∈ map)
    (hright : (key, right) ∈ map) : left = right := by
  have hpairs : map.Pairwise fun first second => first.1 ≠ second.1 := List.pairwise_map.1 hnodup
  induction map with
  | nil => exact absurd hleft List.not_mem_nil
  | cons entry rest ih =>
    rw [List.pairwise_cons] at hpairs
    rcases List.mem_cons.1 hleft with hfirst | hrest
    · rcases List.mem_cons.1 hright with hfirst' | hrest'
      · exact congrArg Prod.snd (hfirst.trans hfirst'.symm)
      · exact absurd (congrArg Prod.fst hfirst.symm) (hpairs.1 (key, right) hrest')
    · rcases List.mem_cons.1 hright with hfirst' | hrest'
      · exact absurd (congrArg Prod.fst hfirst'.symm) (hpairs.1 (key, left) hrest)
      · exact ih (List.nodup_cons.1 hnodup).2 hrest hrest' hpairs.2

theorem insert_of_not_mem (hkey : key ∉ map.keys) (value : ν) :
    map.insert key value = map ++ [(key, value)] := by
  induction map with
  | nil => rfl
  | cons entry rest ih =>
    rw [keys, List.map_cons, List.mem_cons, not_or] at hkey
    have hentry : (entry.1 == key) = false := by simpa using Ne.symm hkey.1
    rw [insert, hentry, ih hkey.2]
    rfl

@[simp]
theorem keys_modify (map : OrderedMap Nat ν) (key : Nat) (change : ν → ν) :
    (map.modify key change).keys = map.keys := by
  rw [keys, modify, List.map_map, keys]
  apply List.map_congr_left
  intro entry _
  simp only [Function.comp]
  split <;> rfl

theorem mem_modify {change : ν → ν} {entry : Nat × ν} (hentry : entry ∈ map.modify key change) :
    entry ∈ map ∨ ∃ value, (key, value) ∈ map ∧ entry = (key, change value) := by
  obtain ⟨before, hbefore, rfl⟩ := List.mem_map.1 hentry
  split
  · rename_i hkey
    rw [beq_iff_eq] at hkey
    exact .inr ⟨before.2, by rw [← hkey]; exact hbefore, by rw [hkey]⟩
  · exact .inl hbefore

theorem mem_erase_iff {entry : Nat × ν} :
    entry ∈ map.erase key ↔ entry ∈ map ∧ entry.1 ≠ key := by
  simp [erase]

theorem keys_erase (map : OrderedMap Nat ν) (key : Nat) :
    (map.erase key).keys = map.keys.filter fun other => other != key := by
  rw [keys, erase, keys, List.filter_map]
  rfl

end OrderedMap

/-! ## Constraints over declared variables -/

namespace Constraint

variable {α : Type}

/-- A constraint has the slack it is kept under, at most one term for a variable, and
speaks of declared variables only. -/
structure Fits (indices : List Nat) (slack : Nat) (constraint : Constraint α) : Prop where
  slack_eq : constraint.slack = slack
  terms_mem : ∀ term ∈ constraint.terms, term.index ∈ indices
  terms_nodup : (constraint.terms.map Term.index).Nodup
  relaxation_mem : ∀ index ∈ constraint.relaxation, index ∈ indices

theorem map_index_writeTerm (terms : List (Term α)) (index : Nat) (coefficient : α) :
    (writeTerm terms index coefficient).map Term.index =
      if index ∈ terms.map Term.index then terms.map Term.index
      else terms.map Term.index ++ [index] := by
  induction terms with
  | nil => rfl
  | cons term rest ih =>
    rw [writeTerm]
    by_cases hterm : term.index = index
    · simp [hterm]
    · have hne : index ≠ term.index := Ne.symm hterm
      rw [if_neg (by simpa using hterm), List.map_cons, ih]
      by_cases hrest : index ∈ rest.map Term.index
      · rw [if_pos hrest, List.map_cons, if_pos (List.mem_cons_of_mem _ hrest)]
      · rw [if_neg hrest, List.map_cons, if_neg (by simp [hne, hrest])]
        rfl

namespace Fits

variable {indices indices' : List Nat} {slack index : Nat} {constraint : Constraint α}

theorem bound (indices : List Nat) (slack : Nat) (rhs : α) (isUpperBound : Bool) :
    Fits indices slack (Constraint.bound slack rhs isUpperBound) :=
  ⟨rfl, fun _ hterm => absurd hterm List.not_mem_nil, List.nodup_nil, by simp [Constraint.bound]⟩

theorem mono (h : Fits indices slack constraint) (hsubset : ∀ index ∈ indices, index ∈ indices') :
    Fits indices' slack constraint :=
  ⟨h.slack_eq, fun term hterm => hsubset _ (h.terms_mem term hterm), h.terms_nodup,
    fun index hindex => hsubset _ (h.relaxation_mem index hindex)⟩

theorem setCoefficient (h : Fits indices slack constraint) (hindex : index ∈ indices)
    (coefficient : α) : Fits indices slack (constraint.setCoefficient index coefficient) := by
  have hmap := map_index_writeTerm constraint.terms index coefficient
  have hmem : ∀ other ∈ constraint.terms.map Term.index, other ∈ indices := by
    intro other hother
    obtain ⟨term, hterm, rfl⟩ := List.mem_map.1 hother
    exact h.terms_mem term hterm
  refine ⟨h.slack_eq, ?_, ?_, h.relaxation_mem⟩
  · intro term hterm
    have hmem' : term.index ∈ (writeTerm constraint.terms index coefficient).map Term.index :=
      List.mem_map.2 ⟨term, hterm, rfl⟩
    rw [hmap] at hmem'
    split at hmem'
    · exact hmem _ hmem'
    · cases List.mem_append.1 hmem' with
      | inl hold => exact hmem _ hold
      | inr hnew => rw [List.mem_singleton.1 hnew]; exact hindex
  · change ((writeTerm constraint.terms index coefficient).map Term.index).Nodup
    rw [hmap]
    split
    · exact h.terms_nodup
    · rename_i hfresh
      rw [List.nodup_append]
      refine ⟨h.terms_nodup, List.pairwise_singleton _ _, ?_⟩
      intro other hother new hnew heq
      rw [List.mem_singleton.1 hnew] at heq
      rw [heq] at hother
      exact hfresh hother

theorem forget (h : Fits indices slack constraint) (index : Nat) :
    Fits (indices.filter fun other => other != index) slack (constraint.forget index) := by
  refine ⟨h.slack_eq, ?_, ?_, ?_⟩
  · intro term hterm
    obtain ⟨hmem, hne⟩ := List.mem_filter.1 hterm
    exact List.mem_filter.2 ⟨h.terms_mem term hmem, by simpa using hne⟩
  · exact h.terms_nodup.sublist (List.filter_sublist.map _)
  · intro other hother
    simp only [Constraint.forget] at hother
    split at hother
    · exact absurd hother (by simp)
    · rename_i hrelaxation
      apply List.mem_filter.2 ⟨h.relaxation_mem other hother, ?_⟩
      rw [Option.mem_def] at hother
      rw [hother] at hrelaxation
      simpa using hrelaxation

theorem isLoadable [Scalar α] (h : Fits indices slack constraint) (hslack : slack ∉ indices) :
    Tableau.IsLoadable indices constraint :=
  ⟨by rw [h.slack_eq]; exact hslack, h.terms_mem, h.terms_nodup⟩

end Fits

end Constraint

/-! ## Models and their tableaus -/

/-- The kind of a variable, and whether it may be negative. -/
def Variable.character {α : Type} (data : Variable α) : VariableKind × Bool :=
  (data.kind, data.isFree)

namespace Tableau

variable {α : Type}

def character? (t : Tableau α) (index : Nat) : Option (VariableKind × Bool) :=
  (t.lookup? index).map Variable.character

theorem isSome_character? (t : Tableau α) (index : Nat) :
    (t.character? index).isSome = (t.lookup? index).isSome := by
  simp [character?]

theorem isInteger_eq (t : Tableau α) (index : Nat) :
    t.isInteger (some index) = (t.character? index).any fun entry => entry.1 == .integer := by
  rw [isInteger, character?, Option.any_map]
  rfl

theorem isFree_eq (t : Tableau α) (index : Nat) :
    t.isFree (some index) = (t.character? index).any Prod.snd := by
  rw [isFree, character?, Option.any_map]
  rfl

theorem character?_of_traits? [Scalar α] {t t' : Tableau α} {index : Nat}
    (htraits : t'.traits? index = t.traits? index) :
    t'.character? index = t.character? index := by
  have hmap (t : Tableau α) : t.character? index =
      (t.traits? index).map Variable.character := by
    rw [character?, traits?, Option.map_map]
    rfl
  rw [hmap, hmap, htraits]

end Tableau

namespace Model

variable {α : Type}

/-- A model and a tableau belong together. -/
structure Fits (model : Model α) (t : Tableau α) : Prop where
  pool : t.HasSoundPool
  indices_nodup : model.indices.Nodup
  slacks_nodup : model.constraints.keys.Nodup
  apart : ∀ index ∈ model.indices, index ∉ model.constraints.keys
  known_iff : ∀ index, (t.lookup? index).isSome ↔
    index ∈ model.indices ∨ index ∈ model.constraints.keys
  integers_eq : model.integers = model.indices.filter fun index => t.isInteger (some index)
  slack_character : ∀ slack ∈ model.constraints.keys, t.character? slack = some (.slack, false)
  constraint_fits : ∀ entry ∈ model.constraints, entry.2.Fits model.indices entry.1
  sound : model.isLoaded = true → t.IsSound

theorem Fits.slack_restricted {model : Model α} {t : Tableau α} (h : Fits model t) {slack : Nat}
    (hslack : slack ∈ model.constraints.keys) : t.isFree (some slack) = false := by
  rw [Tableau.isFree_eq, h.slack_character slack hslack]
  rfl

/-- The integer variables of a tableau are those of the model. -/
theorem Fits.mem_integers_iff {model : Model α} {t : Tableau α} (h : Fits model t) {index : Nat} :
    index ∈ model.integers ↔ t.isInteger (some index) = true := by
  rw [h.integers_eq, List.mem_filter, and_iff_right_iff_imp]
  intro hinteger
  have hknown : (t.lookup? index).isSome := by
    rw [← Tableau.isSome_character?]
    rw [Tableau.isInteger_eq] at hinteger
    cases hcharacter : t.character? index with
    | none => simp [hcharacter] at hinteger
    | some character => rfl
  rcases (h.known_iff index).1 hknown with hindex | hslack
  · exact hindex
  · rw [Tableau.isInteger_eq, h.slack_character index hslack] at hinteger
    exact absurd hinteger (by decide)

/-- A model outside a search that fits its tableau. -/
structure IsQuiet (model : Model α) : Prop extends Fits model model.tableau where
  snapshot_eq : model.tableau.snapshot = none

/-- A model that fits its tableau once a pending search is left, and whose tableau is
in order in any case. -/
structure IsSound (model : Model α) : Prop where
  present_pool : model.tableau.HasSoundPool
  present_sound : model.isLoaded = true → model.tableau.IsSound
  root_fits : Fits model model.tableau.discardSearch

/-- A solve makes no rounding cuts: they are switched off, or there is no integer
variable to cut for. -/
def AvoidsCuts (model : Model α) : Prop :=
  model.options.usesRoundingCuts = false ∨ model.integers = []

instance (model : Model α) : Decidable model.AvoidsCuts :=
  inferInstanceAs (Decidable (model.options.usesRoundingCuts = false ∨ model.integers = []))

/-- The model when a pending search is left. -/
def quiet (model : Model α) : Model α :=
  { model with tableau := model.tableau.discardSearch }

theorem discardSearch_eq (model : Model α) : discardSearch model = .ok () model.quiet := rfl

/-- A model with a fitting tableau outside a search. -/
theorem Fits.isQuiet {model : Model α} {t : Tableau α} (h : Fits model t)
    (hquiet : t.snapshot = none) : IsQuiet { model with tableau := t } :=
  ⟨⟨h.pool, h.indices_nodup, h.slacks_nodup, h.apart, h.known_iff, h.integers_eq,
    h.slack_character, h.constraint_fits, h.sound⟩, hquiet⟩

theorem IsSound.isQuiet {model : Model α} (h : model.IsSound) : model.quiet.IsQuiet :=
  h.root_fits.isQuiet rfl

theorem IsQuiet.isSound {model : Model α} (h : model.IsQuiet) : model.IsSound := by
  refine ⟨h.pool, h.sound, ?_⟩
  rw [Tableau.discardSearch_eq_self h.snapshot_eq]
  exact h.toFits

theorem quiet_eq {model : Model α} (hquiet : model.tableau.snapshot = none) :
    model.quiet = model := by
  rw [quiet, Tableau.discardSearch_eq_self hquiet]

/-- Only the kinds of the variables matter for a model to fit. -/
theorem Fits.of_character {model : Model α} {t t' : Tableau α} (h : Fits model t)
    (hpool : t'.HasSoundPool)
    (hcharacter : ∀ index, t'.character? index = t.character? index)
    (hsound : model.isLoaded = true → t'.IsSound) : Fits model t' := by
  refine ⟨hpool, h.indices_nodup, h.slacks_nodup, h.apart, ?_, ?_, ?_, h.constraint_fits, hsound⟩
  · intro index
    rw [← Tableau.isSome_character?, hcharacter, Tableau.isSome_character?]
    exact h.known_iff index
  · simp only [Tableau.isInteger_eq, hcharacter]
    simp only [← Tableau.isInteger_eq]
    exact h.integers_eq
  · intro slack hslack
    rw [hcharacter]
    exact h.slack_character slack hslack

/-- Changed constraints fit as well if their slacks are the same. -/
theorem Fits.of_constraints {model : Model α} {t : Tableau α} (h : Fits model t)
    {constraints : OrderedMap Nat (Constraint α)}
    (hkeys : constraints.keys = model.constraints.keys)
    (hfits : ∀ entry ∈ constraints, entry.2.Fits model.indices entry.1) :
    Fits { model with constraints := constraints } t := by
  refine ⟨h.pool, h.indices_nodup, ?_, ?_, ?_, h.integers_eq, ?_, hfits, h.sound⟩
  · rw [hkeys]
    exact h.slacks_nodup
  · rw [hkeys]
    exact h.apart
  · rw [hkeys]
    exact h.known_iff
  · rw [hkeys]
    exact h.slack_character

theorem Fits.mentions {model : Model α} {t : Tableau α} (h : Fits model t)
    (hloaded : model.isLoaded = true) {index : Nat}
    (hindex : index ∈ model.indices ∨ index ∈ model.constraints.keys) :
    t.dictionary.Mentions index :=
  ((h.sound hloaded).mentions_iff index).2 ((h.known_iff index).2 hindex)

theorem empty_isQuiet [Scalar α] (precision : α) (options : Options α) :
    (empty precision options).IsQuiet := by
  have hlookup (index : Nat) : (Tableau.blank precision).lookup? index = none :=
    Tableau.lookup?_eq_none_of_le (Nat.zero_le index)
  refine ⟨⟨⟨List.nodup_nil, ?_, ?_, Nat.le_refl 0⟩, List.nodup_nil, List.nodup_nil, ?_, ?_, rfl,
    ?_, ?_, ?_⟩, rfl⟩
  · intro index hindex
    exact absurd hindex List.not_mem_nil
  · intro index hindex
    exact absurd hindex List.not_mem_nil
  · intro index hindex
    exact absurd hindex List.not_mem_nil
  · intro index
    have hnone := hlookup index
    simp only [empty, hnone]
    simp [OrderedMap.keys]
  · intro slack hslack
    exact absurd hslack List.not_mem_nil
  · intro entry hentry
    exact absurd hentry List.not_mem_nil
  · intro hloaded
    exact absurd hloaded (by simp [empty])

end Model

end MixedInteger
