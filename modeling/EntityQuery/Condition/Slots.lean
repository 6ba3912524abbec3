/-!
# Slots

Conditions in a tree are known by the number of their slot. A slot that is given back is used again,
the last one given back first, but its generation is counted up, so that an old name does not become
the name of another condition.

* `NodeId` — a slot and a generation of it.
* `Slots.take` — a name for a new condition.
* `Slots.giveBack`, `Slots.giveBackAll` — names that are no longer used.
-/

namespace EntityQuery

/-- The name of a condition in a tree: a slot and its generation. -/
structure NodeId where
  index : Nat
  generation : UInt32
  deriving DecidableEq, Repr, Inhabited

/-- The name as it is shown: the slot alone. -/
def NodeId.text (id : NodeId) : String := "#" ++ toString id.index

/-- The generations of all slots, and the unused slots, the last one given back first. -/
structure Slots where
  generations : List UInt32
  free : List Nat
  deriving DecidableEq, Repr

namespace Slots

/-- The name of a slot in its generation. -/
def nameOf (s : Slots) (index : Nat) : NodeId := ⟨index, s.generations[index]?.getD 0⟩

/-- A name for a new condition: an unused slot if there is one, else a new slot. -/
def take (s : Slots) : NodeId × Slots :=
  match s.free with
  | index :: free => (s.nameOf index, { s with free })
  | [] => (⟨s.generations.length, 0⟩, { s with generations := s.generations ++ [0] })

/-- Give a slot back; its next use is another generation. -/
def giveBack (s : Slots) (id : NodeId) : Slots where
  generations := s.generations.modify id.index (· + 1)
  free := id.index :: s.free

/-- Give slots back, one after the other. -/
def giveBackAll (s : Slots) (ids : List NodeId) : Slots := ids.foldl giveBack s

/-- The number of slots in use. -/
def used (s : Slots) : Nat := s.generations.length - s.free.length

/-- Giving a slot back makes no new slot. -/
@[simp] theorem length_giveBack (s : Slots) (id : NodeId) :
    (s.giveBack id).generations.length = s.generations.length := by
  simp [giveBack]

/-- A slot that was given back last is taken first, in its next generation. -/
theorem take_giveBack (s : Slots) (id : NodeId) :
    (s.giveBack id).take.1 = (s.giveBack id).nameOf id.index := by
  simp [take, giveBack]

end Slots

end EntityQuery
