/-!
# Places of variables

Variables are known by dense indices.  `Places` says at which row, or at which
column, a variable stands; most variables stand at none.  `IndexPool` hands out
the indices and takes back those of removed variables.
-/

namespace MixedInteger

/-- A partial map from variable indices to positions.  An index beyond the stored
slots has no position. -/
structure Places where
  slots : Array (Option Nat)
  deriving Repr, DecidableEq

namespace Places

def empty : Places := ⟨#[]⟩

def position (places : Places) (index : Nat) : Option Nat :=
  places.slots[index]?.join

def clear (places : Places) (index : Nat) : Places :=
  ⟨places.slots.setIfInBounds index none⟩

/-- Adds slots until a variable has one. -/
def cover (places : Places) (index : Nat) : Places :=
  ⟨places.slots ++ Array.replicate (index + 1 - places.slots.size) none⟩

/-- Gives a variable a position, adding slots as needed. -/
def place (places : Places) (index position : Nat) : Places :=
  ⟨(places.cover index).slots.setIfInBounds index (some position)⟩

@[simp]
theorem position_cover (places : Places) (index other : Nat) :
    (places.cover index).position other = places.position other := by
  simp only [position, cover, Array.getElem?_append]
  split
  · rfl
  · rename_i hother
    simp only [Array.getElem?_replicate]
    rw [Array.getElem?_eq_none (by omega)]
    split <;> rfl

theorem lt_size_cover (places : Places) (index : Nat) :
    index < (places.cover index).slots.size := by
  simp only [cover, Array.size_append, Array.size_replicate]
  omega

theorem position_clear (places : Places) (index other : Nat) :
    (places.clear index).position other =
      if other = index then none else places.position other := by
  simp only [position, clear, Array.getElem?_setIfInBounds]
  by_cases hindex : index = other
  · subst hindex
    by_cases hbound : index < places.slots.size <;> simp [hbound]
  · simp [hindex, Ne.symm hindex]

theorem position_place (places : Places) (index other position : Nat) :
    (places.place index position).position other =
      if other = index then some position else places.position other := by
  have hbound := places.lt_size_cover index
  simp only [Places.position, place, Array.getElem?_setIfInBounds]
  by_cases hindex : index = other
  · subst hindex
    simp [hbound]
  · simpa [Places.position, hindex, Ne.symm hindex] using places.position_cover index other

end Places

/-- Hands out dense indices: the index released last if there is one, else the
next fresh one. -/
structure IndexPool where
  /-- Released indices, the last one first. -/
  free : List Nat
  next : Nat
  deriving Repr, DecidableEq

namespace IndexPool

def empty : IndexPool := ⟨[], 0⟩

def allocate (pool : IndexPool) : Nat × IndexPool :=
  match pool.free with
  | index :: rest => (index, ⟨rest, pool.next⟩)
  | [] => (pool.next, ⟨[], pool.next + 1⟩)

def release (pool : IndexPool) (index : Nat) : IndexPool :=
  ⟨index :: pool.free, pool.next⟩

end IndexPool

end MixedInteger
