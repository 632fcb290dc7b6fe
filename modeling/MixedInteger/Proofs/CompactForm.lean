import MixedInteger.Proofs.Incumbents
import MixedInteger.Proofs.ProperValues
import MixedInteger.Solution.Json

/-!
# The compact form of a solution

The compact form writes the verdict and then the values other than zero into one object, so a
value wins over a field of the verdict with the same name.  The values in turn are written by
name, row after row, so of several variables with the same name the last one in the basis
wins.  Here both are read back: what the form shows under a name is the value of a variable
with that name, or else the field of the verdict.
-/

namespace MixedInteger

/-! ## Maps written entry by entry -/

namespace OrderedMap

variable {κ ν μ : Type} [BEq κ] [LawfulBEq κ]

theorem get?_cons (entry : κ × ν) (rest : OrderedMap κ ν) (key : κ) :
    get? (entry :: rest) key = if entry.1 == key then some entry.2 else rest.get? key := by
  by_cases hkey : entry.1 = key <;> simp [get?, hkey]

theorem get?_eq_none_iff {map : OrderedMap κ ν} {key : κ} :
    map.get? key = none ↔ key ∉ map.keys := by
  rw [get?, Option.map_eq_none_iff, List.find?_eq_none, keys, List.mem_map]
  constructor
  · rintro hnone ⟨entry, hentry, hkey⟩
    exact hnone entry hentry (by simpa using hkey)
  · intro hkey entry hentry hsame
    exact hkey ⟨entry, hentry, by simpa using hsame⟩

/-- Of the entries of a map, those that are kept are found under their keys. -/
theorem get?_filter {map : OrderedMap κ ν} (hnodup : map.keys.Nodup) (keeps : ν → Bool)
    (key : κ) :
    OrderedMap.get? (map.filter fun entry => keeps entry.2) key =
      (map.get? key).filter keeps := by
  induction map with
  | nil => rfl
  | cons entry rest ih =>
    obtain ⟨hfresh, hrest⟩ := List.nodup_cons.1 hnodup
    have hnone : get? rest entry.1 = none := get?_eq_none_iff.2 hfresh
    rw [List.filter_cons, get?_cons]
    by_cases hkey : entry.1 = key
    · subst hkey
      cases hkeeps : keeps entry.2 with
      | true => simp [get?_cons, Option.filter, hkeeps]
      | false => simp [ih hrest, hnone, Option.filter, hkeeps]
    · cases hkeeps : keeps entry.2 with
      | true => simp [get?_cons, hkey, ih hrest]
      | false => simp [hkey, ih hrest]

/-- Writing all entries of a map into another one: they win over what was there. -/
theorem get?_foldl_insert {map : OrderedMap κ ν} (hnodup : map.keys.Nodup) (encode : ν → μ)
    (base : OrderedMap κ μ) (key : κ) :
    (map.foldl (fun fields entry => fields.insert entry.1 (encode entry.2)) base).get? key =
      ((map.get? key).map encode).or (base.get? key) := by
  induction map generalizing base with
  | nil => rfl
  | cons entry rest ih =>
    obtain ⟨hfresh, hrest⟩ := List.nodup_cons.1 hnodup
    have hnone : get? rest entry.1 = none := get?_eq_none_iff.2 hfresh
    rw [List.foldl_cons, ih hrest, get?_insert, get?_cons]
    by_cases hkey : entry.1 = key
    · subst hkey
      simp [hnone]
    · simp [hkey]

end OrderedMap

def Json.member? (json : Json) (name : String) : Option Json :=
  match json with
  | .object fields => OrderedMap.get? fields name
  | _ => none

/-- The compact form shows a value other than zero, and a field of the verdict otherwise. -/
theorem Solution.member?_compactJson {solution : Solution Float}
    (hnodup : solution.values.keys.Nodup) (name : String) :
    solution.compactJson.member? name =
      (((solution.values.get? name).filter fun value => value != 0).map Json.ofFloat).or
        (solution.verdictFields.get? name) := by
  have hzero : (0.0 : Float) = 0 := by decide +kernel
  have hkept : (OrderedMap.keys
      (solution.values.filter fun entry => entry.2 != 0.0)).Nodup :=
    hnodup.sublist (List.filter_sublist.map Prod.fst)
  rw [compactJson, Json.member?, OrderedMap.get?_foldl_insert hkept,
    OrderedMap.get?_filter hnodup fun value => value != 0.0, hzero]

/-! ## The values of the basic variables -/

namespace Tableau

section Rows

variable {α : Type} {name : String}

theorem nodup_keys_noteValue {values : OrderedMap String α} (hnodup : values.keys.Nodup)
    (value : α) (found : Option (Variable α)) : (noteValue values value found).keys.Nodup := by
  unfold noteValue
  split
  · split
    · exact hnodup
    · exact OrderedMap.nodup_keys_insert hnodup _ _
  · exact hnodup

/-- A row stands for a variable of a name that is no slack. -/
def Bears (found : Option (Variable α)) (name : String) : Prop :=
  ∃ data, found = some data ∧ data.isSlack = false ∧ data.name = name

theorem get?_noteValue_of_bears {found : Option (Variable α)} (hbears : Bears found name)
    (values : OrderedMap String α) (value : α) :
    (noteValue values value found).get? name = some value := by
  obtain ⟨data, rfl, hslack, rfl⟩ := hbears
  rw [noteValue, hslack, if_neg Bool.false_ne_true, OrderedMap.get?_insert]
  simp

theorem get?_noteValue_of_not_bears {found : Option (Variable α)} (hbears : ¬ Bears found name)
    (values : OrderedMap String α) (value : α) :
    (noteValue values value found).get? name = values.get? name := by
  cases found with
  | none => rfl
  | some data =>
    rw [noteValue]
    split
    · rfl
    · next hslack =>
      have hname : data.name ≠ name := fun hname =>
        hbears ⟨data, rfl, by simpa using hslack, hname⟩
      rw [OrderedMap.get?_insert, if_neg (by simpa using hname)]

/-- The value noted under a name is that of a row with the name, if there is any. -/
theorem get?_foldl_noteValue (value : Nat → α) (found : Nat → Option (Variable α))
    (rows : List Nat) (values : OrderedMap String α) :
    (∃ r ∈ rows, Bears (found r) name ∧ (rows.foldl (fun values r =>
        noteValue values (value r) (found r)) values).get? name = some (value r)) ∨
      (∀ r ∈ rows, ¬ Bears (found r) name) ∧ (rows.foldl (fun values r =>
        noteValue values (value r) (found r)) values).get? name = values.get? name := by
  induction rows generalizing values with
  | nil => exact .inr ⟨fun _ hr => absurd hr List.not_mem_nil, rfl⟩
  | cons r rest ih =>
    rw [List.foldl_cons]
    rcases ih (noteValue values (value r) (found r)) with
      ⟨later, hlater, hbears, hget⟩ | ⟨hnone, hget⟩
    · exact .inl ⟨later, List.mem_cons_of_mem r hlater, hbears, hget⟩
    · by_cases hbears : Bears (found r) name
      · exact .inl ⟨r, List.mem_cons_self, hbears,
          hget.trans (get?_noteValue_of_bears hbears values (value r))⟩
      · refine .inr ⟨List.forall_mem_cons.2 ⟨hbears, hnone⟩, ?_⟩
        exact hget.trans (get?_noteValue_of_not_bears hbears values (value r))

end Rows

variable {α : Type} [Scalar α] {t : Tableau α}

theorem nodup_keys_basicSolution (t : Tableau α) : t.basicSolution.keys.Nodup := by
  rw [basicSolution_eq]
  generalize t.dictionary.rows = rows
  suffices hfold : ∀ values : OrderedMap String α, values.keys.Nodup →
      (rows.foldl (fun values r => noteValue values (t.round (t.dictionary.entry r 0))
        ((t.dictionary.basicAt r).bind t.lookup?)) values).keys.Nodup from
    hfold [] List.nodup_nil
  induction rows with
  | nil => exact fun _ hnodup => hnodup
  | cons r rest ih => exact fun values hnodup => ih _ (nodup_keys_noteValue hnodup _ _)

/-- The value listed under a name is that of a variable with the name; if there is none, all
variables with the name are non-basic. -/
theorem IsSound.get?_basicSolution (h : t.IsSound) (name : String) :
    (∃ index, Bears (t.lookup? index) name ∧
        t.basicSolution.get? name = some (t.round (t.dictionary.valueOf index))) ∨
      t.basicSolution.get? name = none ∧
        ∀ index, Bears (t.lookup? index) name → t.dictionary.valueOf index = 0 := by
  rw [basicSolution_eq]
  rcases get?_foldl_noteValue (fun r => t.round (t.dictionary.entry r 0))
      (fun r => (t.dictionary.basicAt r).bind t.lookup?) t.dictionary.rows [] with
    ⟨r, hr, hbears, hget⟩ | ⟨hnone, hget⟩
  · obtain ⟨index, hindex⟩ := h.consistent.isNamed.exists_basicAt hr
    have hrow := h.consistent.row?_eq_some_iff.2 ⟨hr, hindex⟩
    rw [hindex] at hbears
    refine .inl ⟨index, hbears, ?_⟩
    rw [hget, Dictionary.valueOf, hrow]
  · refine .inr ⟨hget, fun index hbears => ?_⟩
    cases hrow : t.dictionary.row? index with
    | none => rw [Dictionary.valueOf, hrow]
    | some r =>
      obtain ⟨hr, hindex⟩ := h.consistent.row?_eq_some_iff.1 hrow
      refine absurd ?_ (hnone r hr)
      rw [hindex]
      exact hbears

/-! ## The values of the variables -/

/-- The variables have their values in the basic solution. -/
def IsUpdated (t : Tableau α) (indices : List Nat) : Prop :=
  ∀ index ∈ indices, ∀ data, t.lookup? index = some data →
    data.value = t.round (t.dictionary.valueOf index)

/-- Writing back the values gives each listed variable its own, and no other variable a new
one. -/
theorem lookup?_updateValues (t : Tableau α) (indices : List Nat) (index : Nat) :
    (t.updateValues indices).lookup? index =
      if index ∈ indices then (t.lookup? index).map fun data =>
        { data with value := t.round (t.dictionary.valueOf index) }
      else t.lookup? index := by
  unfold updateValues
  induction indices generalizing t with
  | nil => rfl
  | cons first rest ih =>
    -- the later values do not depend on the first one
    have hvalue (change : Variable α → Variable α) :
        (t.modifyVariable first change).round
          ((t.modifyVariable first change).dictionary.valueOf index) =
            t.round (t.dictionary.valueOf index) := rfl
    rw [List.foldl_cons, ih, lookup?_modifyVariable, hvalue]
    by_cases hfirst : index = first
    · subst hfirst
      by_cases hrest : index ∈ rest <;> simp [hrest, Function.comp_def]
    · simp [hfirst]

theorem isUpdated_updateValues (t : Tableau α) (indices : List Nat) :
    (t.updateValues indices).IsUpdated indices := by
  intro index hindex data hdata
  have hsame := updateValues_eq t indices
  rw [lookup?_updateValues, if_pos hindex] at hdata
  obtain ⟨before, -, rfl⟩ := Option.map_eq_some_iff.1 hdata
  rw [hsame]
  rfl

end Tableau

end MixedInteger
