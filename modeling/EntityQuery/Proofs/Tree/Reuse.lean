import EntityQuery.Proofs.Tree.Counting
import Mathlib.Order.Bounds.Basic

/-!
# Slots are used again

An edit makes a new slot only if no slot is empty, and no slot ever goes. So a tree has as many slots
as it had conditions, with the root, when it had the most of them.

* `Slots.Grows`, `Slots.Takes` — new slots come only if none is left empty.
* `Represents.grows_after` — every edit is of this kind.
* `Represents.length_slots_after` — the number of slots after an edit.
* `Tree.slots_run` — the number of slots of every tree that comes about by edits.
-/

namespace EntityQuery

/-! ### Numberings that grow -/

namespace Slots

variable {s s' s'' : Slots}

/-- No slot goes, and if new ones come then none is left empty. -/
structure Grows (s s' : Slots) : Prop where
  length_le : s.generations.length ≤ s'.generations.length
  free_eq_nil (h : s.generations.length < s'.generations.length) : s'.free = []

/-- Slots are taken, and none is given back. -/
structure Takes (s s' : Slots) : Prop extends s.Grows s' where
  length_free_le : s'.free.length ≤ s.free.length

theorem takes_nothing (s : Slots) : s.Takes s where
  length_le := Nat.le_refl _
  free_eq_nil h := absurd h (Nat.lt_irrefl _)
  length_free_le := Nat.le_refl _

/-- Once new slots have come, none is empty, and it stays so as long as slots are taken. -/
theorem Takes.trans (h : s.Takes s') (h' : s'.Takes s'') : s.Takes s'' where
  length_le := Nat.le_trans h.length_le h'.length_le
  free_eq_nil hlt := by
    rcases Nat.lt_or_ge s.generations.length s'.generations.length with hfirst | hlater
    · have hfree := h'.length_free_le
      rw [h.free_eq_nil hfirst, List.length_nil, Nat.le_zero] at hfree
      exact List.length_eq_zero_iff.mp hfree
    · exact h'.free_eq_nil (Nat.lt_of_le_of_lt hlater hlt)
  length_free_le := Nat.le_trans h'.length_free_le h.length_free_le

theorem takes_take (s : Slots) : s.Takes s.take.2 := by
  cases hfree : s.free with
  | nil =>
    refine ⟨⟨?_, fun _ => ?_⟩, ?_⟩
    · simp [take, hfree]
    · simp [take, hfree]
    · simp [take, hfree]
  | cons index free =>
    -- an empty slot is there, so that the number of slots stays
    refine ⟨⟨?_, fun hlt => ?_⟩, ?_⟩
    · simp [take, hfree]
    · simp [take, hfree] at hlt
    · simp [take, hfree]

mutual

theorem takes_plant (s : Slots) (c : Condition) : s.Takes (Node.plant s c).2 := by
  cases c with
  | leaf logical content => exact s.takes_take
  | block logical children => exact s.takes_take.trans (takes_plantAll _ children)

theorem takes_plantAll (s : Slots) (cs : List Condition) : s.Takes (Node.plantAll s cs).2 := by
  cases cs with
  | nil => exact s.takes_nothing
  | cons c cs => exact (takes_plant s c).trans (takes_plantAll _ cs)

end

theorem length_giveBackAll (s : Slots) (ids : List NodeId) :
    (s.giveBackAll ids).generations.length = s.generations.length := by
  induction ids generalizing s with
  | nil => rfl
  | cons id ids ih => exact (ih (s.giveBack id)).trans (s.length_giveBack id)

/-- As long as the number of slots stays, it does not matter how many of them are empty. -/
theorem grows_of_length_eq (h : s'.generations.length = s.generations.length) : s.Grows s' where
  length_le := h.ge
  free_eq_nil hlt := absurd h hlt.ne'

end Slots

/-! ### The slots of a tree -/

namespace Represents

variable {t : Tree} {o : Outline}

/-- No edit makes a new slot while a slot is empty. -/
theorem grows_after (h : Represents t o) (e : Edit) : o.slots.Grows (o.after e).slots := by
  rw [Outline.after]
  cases hx : o.perform e with
  | error cause => exact o.slots.takes_nothing.toGrows
  | ok x =>
    cases Outline.step_perform h.nodup hx with
    | @added _ frames head children c n slots hroot hplant hchange htarget =>
      have htakes := o.slots.takes_plant c
      rw [hplant] at htakes
      exact htakes.toGrows
    | @grouped frames head children candidates first second others id slots hroot hmatched htake =>
      have htakes := o.slots.takes_take
      rw [htake] at htakes
      exact htakes.toGrows
    | removed hroot => exact Slots.grows_of_length_eq (o.slots.length_giveBackAll _)
    | emptied hroot hsome hall => exact Slots.grows_of_length_eq (o.slots.length_giveBack _)
    | cleared hroot => exact Slots.grows_of_length_eq (o.slots.length_giveBackAll _)
    | _ => exact o.slots.takes_nothing.toGrows

theorem length_slots (h : Represents t o) :
    t.arena.slots.length = o.slots.generations.length := by
  rw [← h.slots]
  exact (List.length_map _).symm

theorem free_eq (h : Represents t o) : t.arena.free = o.slots.free := congrArg Slots.free h.slots

/-- The conditions are counted with the root. -/
theorem length_names (h : Represents t o) : t.names.length = t.size + 1 := by
  have hroot : o.root = .plug [] o.root := rfl
  rw [h.size_add_one.1, ← h.below_eq_names, h.root, (h.below_perm hroot).length_eq]

/-- The slots after an edit are those before it, unless there are more conditions after it. -/
theorem length_slots_after (h : Represents t o) (e : Edit) :
    (t.after e).arena.slots.length = max t.arena.slots.length (t.after e).names.length := by
  have hafter := h.after e
  have hgrows := h.grows_after e
  have hcount := hafter.size_add_one.2
  rw [hafter.length_names]
  rcases Nat.lt_or_ge o.slots.generations.length (o.after e).slots.generations.length with
    hnew | hsame
  · -- new slots: no slot is empty now
    have hfull := hgrows.free_eq_nil hnew
    rw [← hafter.free_eq] at hfull
    rw [hfull, List.length_nil] at hcount
    rw [← h.length_slots, ← hafter.length_slots] at hnew
    omega
  · have hlength := Nat.le_antisymm hsame hgrows.length_le
    rw [← h.length_slots, ← hafter.length_slots] at hlength
    omega

end Represents

namespace Tree

/-- The numbers of conditions, with the root, at the moments of a run: before the first edit, between
the edits and after the last one. In the course of an edit there are never more of them, since no edit
both takes slots and gives some back. -/
def populations (t : Tree) (edits : List Edit) : Set Nat :=
  {n | ∃ seen, seen <+: edits ∧ (t.run seen).names.length = n}

theorem populations_nil (t : Tree) : t.populations [] = {t.names.length} := by
  ext n
  simp only [populations, Set.mem_ofPred_eq, Set.mem_singleton_iff, List.prefix_nil,
    exists_eq_left, eq_comm (a := n)]
  rfl

/-- One more edit brings one more moment. -/
theorem populations_concat (t : Tree) (edits : List Edit) (e : Edit) :
    t.populations (edits ++ [e]) =
      insert ((t.run edits).after e).names.length (t.populations edits) := by
  ext n
  simp only [populations, Set.mem_ofPred_eq, Set.mem_insert_iff, List.prefix_concat_iff,
    or_and_right, exists_or, exists_eq_left, run_append, eq_comm (a := n)]
  rfl

/-- The slots are as many as there were conditions when there were the most. -/
theorem isGreatest_slots (factory : OperatorFactory) (edits : List Edit) :
    IsGreatest ((ofFactory factory).populations edits)
      ((ofFactory factory).run edits).arena.slots.length := by
  induction edits using List.reverseRecOn with
  | nil =>
    have hroot : (ofFactory factory).names.length = 1 :=
      (represents_ofFactory factory).length_names
    rw [populations_nil, hroot]
    exact isGreatest_singleton
  | append_singleton edits e ih =>
    have hslots := (represents_run factory edits).length_slots_after e
    rw [max_comm] at hslots
    rw [populations_concat, run_append]
    exact hslots ▸ ih.insert _

/-- A tree that comes about by edits has as many slots as it had conditions, with the root, at the
moment when it had the most of them. So `n + 1` slots are enough for edits that never leave more than
`n` conditions below the root. -/
theorem slots_run (factory : OperatorFactory) (edits : List Edit) :
    let t := ofFactory factory
    IsGreatest (t.populations edits) (t.run edits).arena.slots.length ∧
      ∀ n, (∀ seen, seen <+: edits → (t.run seen).size ≤ n) →
        (t.run edits).arena.slots.length ≤ n + 1 := by
  intro t
  have hmost := isGreatest_slots factory edits
  refine ⟨hmost, fun n hn => ?_⟩
  obtain ⟨seen, hseen, hlength⟩ := hmost.1
  rw [← hlength, (represents_run factory seen).length_names]
  exact Nat.succ_le_succ (hn seen hseen)

/-- Two blocks come, are grouped and ungrouped, and go, and all this once more. -/
example (factory : OperatorFactory) :
    let round (a b : Nat) (g : UInt32) : List Edit :=
      [.add ⟨0, 0⟩ (.block .and []), .add ⟨0, 0⟩ (.block .or []),
        .group ⟨0, 0⟩ [⟨a, g⟩, ⟨b, g⟩], .ungroup ⟨3, g⟩ [⟨a, g⟩, ⟨b, g⟩], .clear ⟨0, 0⟩]
    let t := (ofFactory factory).run (round 1 2 0 ++ round 2 1 1)
    t.size = 0 ∧ t.arena.slots.length = 4 := by
  cbv

end Tree

end EntityQuery
