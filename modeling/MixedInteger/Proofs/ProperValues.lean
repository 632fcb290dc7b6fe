import Mathlib.Data.List.Nodup
import MixedInteger.Json.Reader

/-!
# Values without repeated keys

A key that is written twice in a JSON text keeps its first place and its last value.  So the
objects that are read have no key twice, at any depth, and what is found under a key is all
that the object says about it.
-/

namespace MixedInteger

theorem OrderedMap.nodup_keys_insert {κ ν : Type} [BEq κ] [LawfulBEq κ] {map : OrderedMap κ ν}
    (h : map.keys.Nodup) (key : κ) (value : ν) : (map.insert key value).keys.Nodup := by
  rw [keys_insert]
  split
  · exact h
  · rename_i hkey
    rw [← List.concat_eq_append]
    exact h.concat hkey

theorem OrderedMap.mem_insert {κ ν : Type} [BEq κ] {map : OrderedMap κ ν} {key : κ} {value : ν}
    {entry : κ × ν} (h : entry ∈ map.insert key value) : entry ∈ map ∨ entry.2 = value := by
  induction map with
  | nil =>
    rw [List.mem_singleton.1 h]
    exact .inr rfl
  | cons first rest ih =>
    rw [insert] at h
    split at h
    · rcases List.mem_cons.1 h with rfl | hrest
      · exact .inr rfl
      · exact .inl (List.mem_cons_of_mem _ hrest)
    · rcases List.mem_cons.1 h with rfl | hrest
      · exact .inl List.mem_cons_self
      · exact (ih hrest).imp_left (List.mem_cons_of_mem _)

namespace Json

/-- No object inside a value has a key twice. -/
inductive IsProper : Json → Prop
  | null : IsProper .null
  | bool (value : Bool) : IsProper (.bool value)
  | number (value : Number) : IsProper (.number value)
  | string (value : String) : IsProper (.string value)
  | array {items : List Json} (items_proper : ∀ item ∈ items, IsProper item) :
      IsProper (.array items)
  | object {fields : List (String × Json)} (keys_nodup : (fields.map Prod.fst).Nodup)
      (fields_proper : ∀ entry ∈ fields, IsProper entry.2) : IsProper (.object fields)

@[simp]
theorem isProper_number (value : Number) : (Json.number value).IsProper := .number value

@[simp]
theorem isProper_string (value : String) : (Json.string value).IsProper := .string value

@[simp]
theorem isProper_array {items : List Json} :
    (Json.array items).IsProper ↔ ∀ item ∈ items, item.IsProper :=
  ⟨fun h => by cases h with | array hitems => exact hitems, .array⟩

@[simp]
theorem isProper_object {fields : List (String × Json)} : (Json.object fields).IsProper ↔
    (fields.map Prod.fst).Nodup ∧ ∀ entry ∈ fields, entry.2.IsProper :=
  ⟨fun h => by cases h with | object hnodup hfields => exact ⟨hnodup, hfields⟩,
    fun h => .object h.1 h.2⟩

/-! ## Reading -/

def ReadsProper (reader : Reader Json) : Prop :=
  ∀ text json rest, reader text = some (json, rest) → json.IsProper

theorem readNumber_proper (negative : Bool) : ReadsProper (readNumber negative) := by
  intro text json rest h
  have hnumber : ∃ value, json = .number value := by
    unfold readNumber at h
    grind
  obtain ⟨value, rfl⟩ := hnumber
  exact .number value

variable {readItem : Reader Json}

theorem readItems_proper (hitem : ReadsProper readItem) {budget : Nat} {done items : List Json}
    {text rest : List Char} (hdone : ∀ item ∈ done, item.IsProper)
    (h : readItems readItem budget done text = some (items, rest)) :
    ∀ item ∈ items, item.IsProper := by
  induction budget generalizing done text with
  | zero => cases h
  | succ budget ih =>
    rw [readItems] at h
    obtain ⟨⟨item, next⟩, hfirst, hnext⟩ := Option.bind_eq_some_iff.1 h
    have hmore : ∀ other ∈ item :: done, other.IsProper :=
      List.forall_mem_cons.2 ⟨hitem _ _ _ hfirst, hdone⟩
    dsimp only at hnext
    split at hnext
    · exact ih hmore hnext
    · injection hnext with hitems
      injection hitems with hitems
      rw [← hitems]
      intro other hother
      exact hmore other (List.mem_reverse.1 hother)
    · cases hnext

theorem readFields_proper (hitem : ReadsProper readItem) {budget : Nat}
    {done fields : List (String × Json)} {text rest : List Char}
    (hdone : (object done).IsProper)
    (h : readFields readItem budget done text = some (fields, rest)) :
    (object fields).IsProper := by
  induction budget generalizing done text with
  | zero => cases h
  | succ budget ih =>
    unfold readFields at h
    split at h
    · obtain ⟨⟨name, next⟩, -, hnext⟩ := Option.bind_eq_some_iff.1 h
      dsimp only at hnext
      split at hnext
      · obtain ⟨⟨value, last⟩, hvalue, hlast⟩ := Option.bind_eq_some_iff.1 hnext
        have hmore : (object (OrderedMap.insert done name value)).IsProper := by
          rw [isProper_object] at hdone ⊢
          refine ⟨OrderedMap.nodup_keys_insert hdone.1 name value, fun entry hentry => ?_⟩
          rcases OrderedMap.mem_insert hentry with hold | hnew
          · exact hdone.2 entry hold
          · rw [hnew]
            exact hitem _ _ _ hvalue
        dsimp only at hlast
        split at hlast
        · exact ih hmore hlast
        · injection hlast with hfields
          injection hfields with hfields
          rw [← hfields]
          exact hmore
        · cases hlast
      · cases hnext
    · cases h

theorem proper_of_map {β : Type} {found : Option β} {make : β → Json × List Char} {json : Json}
    {rest : List Char} (h : found.map make = some (json, rest))
    (hmake : ∀ value, found = some value → (make value).1.IsProper) : json.IsProper := by
  obtain ⟨value, hvalue, hjson⟩ := Option.map_eq_some_iff.1 h
  have hproper := hmake value hvalue
  rw [hjson] at hproper
  exact hproper

/-- A value is proper if those inside it are. -/
theorem readValue_proper_of_smaller {depth : Nat}
    (hsmaller : ∀ smaller, depth = smaller + 1 → ReadsProper (readValue smaller)) :
    ReadsProper (readValue depth) := by
  intro text json rest h
  unfold readValue at h
  split at h
  · exact proper_of_map h fun _ _ => .null
  · exact proper_of_map h fun _ _ => .bool true
  · exact proper_of_map h fun _ _ => .bool false
  · exact proper_of_map h fun _ _ => .string _
  · exact readNumber_proper true _ json rest h
  · split at h
    · cases h
    · rename_i smaller
      split at h
      · injection h with hjson
        injection hjson with hjson
        rw [← hjson]
        exact .array fun item hitem => absurd hitem List.not_mem_nil
      · exact proper_of_map h fun _ hitems => .array
          (readItems_proper (hsmaller smaller rfl) (by simp) hitems)
  · split at h
    · cases h
    · rename_i smaller
      split at h
      · injection h with hjson
        injection hjson with hjson
        rw [← hjson]
        exact .object List.nodup_nil fun entry hentry => absurd hentry List.not_mem_nil
      · exact proper_of_map h fun _ hfields =>
          readFields_proper (hsmaller smaller rfl) (by simp) hfields
  · exact readNumber_proper false _ json rest h

theorem readValue_proper (depth : Nat) : ReadsProper (readValue depth) := by
  induction depth with
  | zero => exact readValue_proper_of_smaller fun _ h => absurd h (Nat.zero_ne_add_one _)
  | succ depth ih =>
    apply readValue_proper_of_smaller
    rintro smaller ⟨⟩
    exact ih

/-- Nothing that is read has an object with a key twice. -/
theorem isProper_of_parse? {text : String} {json : Json} (h : parse? text = some json) :
    json.IsProper := by
  obtain ⟨⟨value, rest⟩, hvalue, hjson⟩ := Option.bind_eq_some_iff.1 h
  dsimp only at hjson
  split at hjson
  · injection hjson with hjson
    rw [← hjson]
    exact readValue_proper maximalDepth _ value rest hvalue
  · cases hjson

end Json
end MixedInteger
