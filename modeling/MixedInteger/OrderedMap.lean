/-!
# Maps in order of insertion

A finite map as the list of its entries, in the order in which the keys were
first written.  Writing a known key changes its value in place, and removing a
key leaves the order of the others alone.  Objects of a problem description,
solution sets and the constraints of a model are all such maps.
-/

namespace MixedInteger

/-- The entries of a map, in order of first insertion. -/
abbrev OrderedMap (κ ν : Type) := List (κ × ν)

namespace OrderedMap

variable {κ ν : Type} [BEq κ]

def get? (map : OrderedMap κ ν) (key : κ) : Option ν :=
  (map.find? fun entry => entry.1 == key).map Prod.snd

/-- Gives a key a value: a known key keeps its place, a new one comes last. -/
def insert : OrderedMap κ ν → κ → ν → OrderedMap κ ν
  | [], key, value => [(key, value)]
  | entry :: rest, key, value =>
    if entry.1 == key then (entry.1, value) :: rest else entry :: insert rest key value

def modify (map : OrderedMap κ ν) (key : κ) (change : ν → ν) : OrderedMap κ ν :=
  map.map fun entry => if entry.1 == key then (entry.1, change entry.2) else entry

def erase (map : OrderedMap κ ν) (key : κ) : OrderedMap κ ν :=
  map.filter fun entry => !(entry.1 == key)

def keys (map : OrderedMap κ ν) : List κ :=
  map.map Prod.fst

def values (map : OrderedMap κ ν) : List ν :=
  map.map Prod.snd

/-- The map that results from writing a list of pairs one after the other. -/
def ofPairs (pairs : List (κ × ν)) : OrderedMap κ ν :=
  pairs.foldl (fun map pair => map.insert pair.1 pair.2) []

theorem keys_insert [LawfulBEq κ] (map : OrderedMap κ ν) (key : κ) (value : ν) :
    (map.insert key value).keys = if key ∈ map.keys then map.keys else map.keys ++ [key] := by
  induction map with
  | nil => simp [insert, keys]
  | cons entry rest ih =>
    simp only [keys] at ih
    by_cases hkey : entry.1 = key
    · simp [insert, keys, hkey]
    · have hother : ¬ key = entry.1 := fun h => hkey h.symm
      by_cases hrest : key ∈ rest.map Prod.fst
      · simp [insert, keys, hkey, hother, ih, hrest]
      · simp [insert, keys, hkey, hother, ih, hrest]

theorem get?_insert [LawfulBEq κ] (map : OrderedMap κ ν) (key other : κ) (value : ν) :
    (map.insert key value).get? other = if key == other then some value else map.get? other := by
  induction map with
  | nil => by_cases hkey : key = other <;> simp [insert, get?, hkey]
  | cons entry rest ih =>
    simp only [get?] at ih
    by_cases hentry : entry.1 = key
    · by_cases hother : key = other <;> simp [insert, get?, hentry, hother]
    · by_cases hfound : entry.1 = other
      · have hne : ¬ key = other := fun h => hentry (hfound.trans h.symm)
        have hne' : ¬ other = key := fun h => hne h.symm
        simp [insert, get?, hfound, hne, hne']
      · simp [insert, get?, hentry, hfound, ih]

end OrderedMap

end MixedInteger
