import EntityQuery.Condition.Outline
import Mathlib.Data.Multiset.AddSub
import Mathlib.Data.Multiset.Range

/-!
# What an arena stores

An arena is seen through `Arena.get?`, the entries by their names. Each change of the arena is
described by what it does to this view, to the numbering of the slots and to the list of empty ones.

* `Arena.Tidy` — the list of empty slots has each of them once, and nothing else.
* `Arena.get?_modify`, `Arena.get?_alloc`, `Arena.get?_drop` — the view after a change.
* `Arena.tidy_modify`, `Arena.tidy_alloc`, `Arena.tidy_drop` — every change keeps the arena tidy.
* `Arena.Stores` — the arena has some entries, and no others; `Arena.Stores.modify`,
  `Arena.Stores.alloc` and `Arena.Stores.drop` say which ones it has after a change.
* `Arena.Stores.card_add_length_free` — every slot has an entry or is empty.
-/

namespace EntityQuery

namespace Arena

variable {a : Arena} {id : NodeId}

/-- The generations of the slots, and the empty slots. -/
def numbering (a : Arena) : Slots := ⟨a.slots.map (·.generation), a.free⟩

/-- The list of empty slots has each of them once, and nothing else. -/
structure Tidy (a : Arena) : Prop where
  nodup : a.free.Nodup
  mem_free : ∀ i, i ∈ a.free ↔ ∃ s, a.slots[i]? = some s ∧ s.entry? = none

theorem get?_def (a : Arena) (id : NodeId) :
    a.get? id =
      (a.slots[id.index]?).bind fun s => if s.generation = id.generation then s.entry? else none :=
  rfl

theorem get?_eq_some {e : Entry} :
    a.get? id = some e ↔
      ∃ s, a.slots[id.index]? = some s ∧ s.generation = id.generation ∧ s.entry? = some e := by
  rw [get?_def, Option.bind_eq_some_iff]
  apply exists_congr
  intro s
  apply and_congr_right
  intro _
  split <;> simp_all

/-- The name of a full slot is live. -/
theorem get?_of_slot {i : Nat} {s : Slot} (h : a.slots[i]? = some s) :
    a.get? ⟨i, s.generation⟩ = s.entry? := by
  simp [get?_def, h]

/-- A slot has at most one live name. -/
theorem eq_of_index_eq {id other : NodeId} {e f : Entry} (h : a.get? id = some e)
    (hother : a.get? other = some f) (hindex : id.index = other.index) : id = other := by
  obtain ⟨s, hs, hgen, -⟩ := get?_eq_some.mp h
  obtain ⟨s', hs', hgen', -⟩ := get?_eq_some.mp hother
  rw [hindex, hs'] at hs
  cases hs
  cases id
  cases other
  simp_all

/-! ### Changing an entry -/

theorem get?_modify (a : Arena) (id i : NodeId) (f : Entry → Entry) :
    (a.modify id f).get? i = if i = id then (a.get? id).map f else a.get? i := by
  by_cases hindex : id.index = i.index
  · cases hs : a.slots[i.index]? with
    | none => simp [modify, get?_def, hindex, hs]
    | some s =>
      by_cases hgen : s.generation = id.generation
      · by_cases hid : i = id
        · subst hid
          simp [modify, get?_def, hs, hgen]
        · have hne : ¬ id.generation = i.generation := by
            intro h
            apply hid
            cases i
            cases id
            simp_all
          simp [modify, get?_def, hindex, hs, hgen, hid, hne]
      · by_cases hid : i = id
        · subst hid
          simp [modify, get?_def, hs, hgen]
        · simp [modify, get?_def, hindex, hs, hgen, hid]
  · have hid : ¬ i = id := fun h => hindex (by rw [h])
    simp [modify, get?_def, hindex, hid]

theorem isSome_get?_modify (a : Arena) (id i : NodeId) (f : Entry → Entry) :
    ((a.modify id f).get? i).isSome = (a.get? i).isSome := by
  rw [get?_modify]
  split
  · next h => rw [h, Option.isSome_map]
  · rfl

@[simp] theorem numbering_modify (a : Arena) (id : NodeId) (f : Entry → Entry) :
    (a.modify id f).numbering = a.numbering := by
  simp only [numbering, modify, Slots.mk.injEq, and_true]
  apply List.ext_getElem?
  intro i
  simp only [List.getElem?_map, List.getElem?_modify]
  cases a.slots[i]? with
  | none => rfl
  | some s =>
    simp only [Option.map_some, Option.map_eq_map]
    split
    · split <;> rfl
    · rfl

/-- A change of an entry into itself changes nothing. -/
theorem modify_eq_self {f : Entry → Entry} {e : Entry} (h : a.get? id = some e) (hf : f e = e) :
    a.modify id f = a := by
  obtain ⟨s, hs, hgen, he⟩ := get?_eq_some.mp h
  have hself : ({ s with entry? := s.entry?.map f } : Slot) = s := by
    rw [he, Option.map_some, hf, ← he]
  have hslots : a.slots.modify id.index (fun s =>
      if s.generation = id.generation then { s with entry? := s.entry?.map f } else s) = a.slots := by
    apply List.ext_getElem?
    intro i
    rw [List.getElem?_modify]
    by_cases hi : id.index = i
    · subst hi
      simp only [hs, Option.map_eq_map, Option.map_some, if_true, if_pos hgen, hself]
    · cases a.slots[i]? <;> simp [hi]
  rw [modify, hslots]

theorem free_of_numbering {b : Arena} (h : b.numbering = a.numbering) : b.free = a.free :=
  congrArg Slots.free h

/-- An arena with the same numbering is tidy if the same names are live. -/
theorem Tidy.of_numbering {b : Arena} (h : a.Tidy) (hnum : b.numbering = a.numbering)
    (hlive : ∀ i, (b.get? i).isSome = (a.get? i).isSome) : b.Tidy where
  nodup := free_of_numbering hnum ▸ h.nodup
  mem_free i := by
    have hgen : (b.slots[i]?).map (·.generation) = (a.slots[i]?).map (·.generation) := by
      rw [← List.getElem?_map, ← List.getElem?_map]
      exact congrArg (·[i]?) (congrArg Slots.generations hnum)
    rw [free_of_numbering hnum, h.mem_free]
    cases ha : a.slots[i]? with
    | none =>
      rw [ha, Option.map_none, Option.map_eq_none_iff] at hgen
      simp [hgen]
    | some s =>
      rw [ha, Option.map_some, Option.map_eq_some_iff] at hgen
      obtain ⟨s', hs', hgen⟩ := hgen
      have hboth := hlive ⟨i, s.generation⟩
      rw [get?_of_slot ha, ← hgen, get?_of_slot hs'] at hboth
      simp only [hs', Option.some.injEq, exists_eq_left']
      cases hs : s.entry? <;> cases hs'e : s'.entry? <;> simp_all

theorem tidy_modify (h : a.Tidy) (id : NodeId) (f : Entry → Entry) : (a.modify id f).Tidy :=
  h.of_numbering (numbering_modify a id f) fun i => isSome_get?_modify a id i f

/-! ### A new entry -/

theorem numbering_alloc (a : Arena) (e : Entry) :
    ((a.alloc e).1, (a.alloc e).2.numbering) = a.numbering.take := by
  cases hfree : a.free with
  | nil => simp [alloc, hfree, numbering, Slots.take]
  | cons index free =>
    simp only [alloc, hfree, numbering, Slots.take, Slots.nameOf, List.getElem?_map]
    refine Prod.ext ?_ ?_
    · cases a.slots[index]? <;> rfl
    · simp only [Slots.mk.injEq, and_true]
      apply List.ext_getElem?
      intro i
      simp only [List.getElem?_map, List.getElem?_modify]
      cases a.slots[i]? with
      | none => rfl
      | some s =>
        simp only [Option.map_some, Option.map_eq_map]
        split <;> rfl

/-- A new entry gets a name that was not in use. -/
theorem get?_alloc_fresh (h : a.Tidy) (e : Entry) : a.get? (a.alloc e).1 = none := by
  cases hfree : a.free with
  | nil => simp [alloc, hfree, get?_def]
  | cons index free =>
    obtain ⟨s, hs, hnone⟩ := (h.mem_free index).mp (by rw [hfree]; exact List.mem_cons_self)
    simp [alloc, hfree, get?_def, hs, hnone]

theorem get?_alloc (h : a.Tidy) (e : Entry) (i : NodeId) :
    (a.alloc e).2.get? i = if i = (a.alloc e).1 then some e else a.get? i := by
  cases hfree : a.free with
  | nil =>
    simp only [alloc, hfree, get?_def]
    by_cases hindex : i.index = a.slots.length
    · by_cases hgen : i.generation = 0
      · have : i = ⟨a.slots.length, 0⟩ := by
          cases i
          simp_all
        simp [this]
      · have : ¬ i = ⟨a.slots.length, 0⟩ := fun h => hgen (by rw [h])
        simp [hindex, this, Ne.symm hgen]
    · have : ¬ i = ⟨a.slots.length, 0⟩ := fun h => hindex (by rw [h])
      rw [if_neg this]
      congr 1
      rcases Nat.lt_or_gt_of_ne hindex with hlt | hgt
      · rw [List.getElem?_append_left hlt]
      · rw [List.getElem?_eq_none (by simp; omega), List.getElem?_eq_none (by omega)]
  | cons index free =>
    obtain ⟨s, hs, hnone⟩ := (h.mem_free index).mp (by rw [hfree]; exact List.mem_cons_self)
    simp only [alloc, hfree, get?_def, hs, Option.elim_some]
    by_cases hindex : i.index = index
    · subst hindex
      by_cases hgen : s.generation = i.generation
      · have : i = ⟨i.index, s.generation⟩ := by
          cases i
          simp_all
        simp [hs, hgen]
      · have : ¬ i = ⟨i.index, s.generation⟩ := fun h => hgen (by rw [h])
        rw [if_neg this]
        simp [hs, hgen]
    · have : ¬ i = ⟨index, s.generation⟩ := fun h => hindex (by rw [h])
      rw [if_neg this]
      simp [Ne.symm hindex]

theorem tidy_alloc (h : a.Tidy) (e : Entry) : (a.alloc e).2.Tidy := by
  cases hfree : a.free with
  | nil =>
    constructor
    · simp [alloc, hfree]
    · intro i
      have hfull := h.mem_free i
      rw [hfree] at hfull
      simp only [alloc, hfree, List.not_mem_nil, false_iff]
      rintro ⟨s, hs, hnone⟩
      rcases Nat.lt_or_ge i a.slots.length with hlt | hge
      · rw [List.getElem?_append_left hlt] at hs
        exact absurd (hfull.mpr ⟨s, hs, hnone⟩) List.not_mem_nil
      · rw [List.getElem?_append_right hge, List.getElem?_singleton] at hs
        split at hs
        · cases hs
          cases hnone
        · cases hs
  | cons index free =>
    have hnodup := h.nodup
    rw [hfree, List.nodup_cons] at hnodup
    constructor
    · simpa [alloc, hfree] using hnodup.2
    · intro i
      have hempty := h.mem_free i
      rw [hfree, List.mem_cons] at hempty
      simp only [alloc, hfree, List.getElem?_modify, Option.map_eq_map]
      by_cases hi : index = i
      · subst hi
        refine ⟨fun hmem => absurd hmem hnodup.1, ?_⟩
        rintro ⟨s, hs, hnone⟩
        simp only [if_true, Option.map_eq_some_iff] at hs
        obtain ⟨s, -, rfl⟩ := hs
        cases hnone
      · rw [or_iff_right (Ne.symm hi)] at hempty
        rw [hempty]
        simp [hi]

/-! ### An entry less -/

/-- The arena without the entry of a name. -/
def drop (a : Arena) (id : NodeId) : Arena := ((a.release id).map (·.2)).getD a

theorem release_of_get? {e : Entry} (h : a.get? id = some e) :
    a.release id = some (e, a.drop id) := by
  simp [drop, release, h]

theorem drop_of_live {e : Entry} (h : a.get? id = some e) :
    a.drop id =
      ⟨a.slots.modify id.index fun s => ⟨s.generation + 1, none⟩, id.index :: a.free⟩ := by
  simp [drop, release, h]

theorem drop_of_none (h : a.get? id = none) : a.drop id = a := by
  simp [drop, release, h]

theorem get?_drop (a : Arena) (id i : NodeId) :
    (a.drop id).get? i = if i = id then none else a.get? i := by
  cases h : a.get? id with
  | none =>
    rw [drop_of_none h]
    split
    · next hi => rw [hi, h]
    · rfl
  | some e =>
    obtain ⟨s, hs, hgen, hentry⟩ := get?_eq_some.mp h
    rw [drop_of_live h]
    by_cases hindex : id.index = i.index
    · by_cases hid : i = id
      · subst hid
        simp [get?_def, hs]
      · have hne : ¬ s.generation = i.generation := by
          intro h
          apply hid
          cases i
          cases id
          simp_all
        rw [hindex] at hs
        simp [get?_def, hindex, hs, hid, hne]
    · have hid : ¬ i = id := fun h => hindex (by rw [h])
      simp [get?_def, hindex, hid]

theorem numbering_drop {e : Entry} (h : a.get? id = some e) :
    (a.drop id).numbering = a.numbering.giveBack id := by
  simp only [drop_of_live h, numbering, Slots.giveBack, Slots.mk.injEq, and_true]
  apply List.ext_getElem?
  intro i
  simp only [List.getElem?_map, List.getElem?_modify, Option.map_eq_map]
  cases a.slots[i]? with
  | none => rfl
  | some s =>
    simp only [Option.map_some]
    split <;> rfl

theorem tidy_drop (h : a.Tidy) (id : NodeId) : (a.drop id).Tidy := by
  cases he : a.get? id with
  | none => rwa [drop_of_none he]
  | some e =>
    obtain ⟨s, hs, hgen, hentry⟩ := get?_eq_some.mp he
    have hfull : id.index ∉ a.free := by
      intro hmem
      obtain ⟨s', hs', hnone⟩ := (h.mem_free id.index).mp hmem
      rw [hs] at hs'
      cases hs'
      rw [hentry] at hnone
      cases hnone
    rw [drop_of_live he]
    constructor
    · exact List.nodup_cons.mpr ⟨hfull, h.nodup⟩
    · intro i
      simp only [List.mem_cons, h.mem_free i, List.getElem?_modify, Option.map_eq_map]
      by_cases hi : id.index = i
      · subst hi
        simp [hs]
      · simp [hi, Ne.symm hi]

/-! ### The entries together -/

/-- An arena stores a collection of named entries: each name once, and no other name is live. -/
structure Stores (a : Arena) (es : Multiset (NodeId × Entry)) : Prop where
  tidy : a.Tidy
  nodup : (es.map Prod.fst).Nodup
  mem : ∀ id e, a.get? id = some e ↔ (id, e) ∈ es

namespace Stores

variable {e : Entry} {es : Multiset (NodeId × Entry)}

theorem get?_eq (h : a.Stores ((id, e) ::ₘ es)) : a.get? id = some e :=
  (h.mem id e).mpr (Multiset.mem_cons_self _ _)

theorem not_mem_of_cons (h : a.Stores ((id, e) ::ₘ es)) (f : Entry) : (id, f) ∉ es := by
  have hnodup := h.nodup
  rw [Multiset.map_cons, Multiset.nodup_cons] at hnodup
  exact fun hmem => hnodup.1 (Multiset.mem_map.mpr ⟨(id, f), hmem, rfl⟩)

/-- The entry of a name changes, and no other. -/
theorem modify (h : a.Stores ((id, e) ::ₘ es)) (f : Entry → Entry) :
    (a.modify id f).Stores ((id, f e) ::ₘ es) where
  tidy := tidy_modify h.tidy id f
  nodup := by
    have := h.nodup
    rwa [Multiset.map_cons] at this ⊢
  mem i g := by
    rw [get?_modify, Multiset.mem_cons, Prod.mk.injEq]
    by_cases hi : i = id
    · subst hi
      rw [if_pos rfl, h.get?_eq, Option.map_some, Option.some.injEq,
        or_iff_left (h.not_mem_of_cons g)]
      exact ⟨fun heq => ⟨rfl, heq.symm⟩, fun heq => heq.2.symm⟩
    · rw [if_neg hi, h.mem, Multiset.mem_cons, Prod.mk.injEq]
      simp [hi]

/-- A new entry has a new name. -/
theorem alloc (h : a.Stores es) (e : Entry) : (a.alloc e).2.Stores (((a.alloc e).1, e) ::ₘ es) where
  tidy := tidy_alloc h.tidy e
  nodup := by
    rw [Multiset.map_cons, Multiset.nodup_cons]
    refine ⟨?_, h.nodup⟩
    intro hmem
    obtain ⟨⟨i, f⟩, hf, rfl⟩ := Multiset.mem_map.mp hmem
    rw [← h.mem, get?_alloc_fresh h.tidy] at hf
    cases hf
  mem i f := by
    rw [get?_alloc h.tidy, Multiset.mem_cons, Prod.mk.injEq]
    by_cases hi : i = (a.alloc e).1
    · have hnone : (i, f) ∉ es := by
        rw [← h.mem, hi, get?_alloc_fresh h.tidy]
        exact Option.some_ne_none f ∘ Eq.symm
      rw [if_pos hi, Option.some.injEq, or_iff_left hnone]
      exact ⟨fun heq => ⟨hi, heq.symm⟩, fun heq => heq.2.symm⟩
    · rw [if_neg hi, h.mem]
      simp [hi]

/-- The entry of a name goes, and no other. -/
theorem drop (h : a.Stores ((id, e) ::ₘ es)) : (a.drop id).Stores es where
  tidy := tidy_drop h.tidy id
  nodup := by
    have := h.nodup
    rw [Multiset.map_cons, Multiset.nodup_cons] at this
    exact this.2
  mem i f := by
    rw [get?_drop]
    by_cases hi : i = id
    · subst hi
      simp [h.not_mem_of_cons f]
    · rw [if_neg hi, h.mem, Multiset.mem_cons, Prod.mk.injEq]
      simp [hi]

/-- The slots of the entries and the empty slots are all slots. -/
theorem indices_add_free (h : a.Stores es) :
    es.map (·.1.index) + (a.free : Multiset Nat) = Multiset.range a.slots.length := by
  have hindex : (es.map (·.1.index)).Nodup := by
    rw [← Function.comp_def, ← Multiset.map_map]
    refine Multiset.Nodup.map_on ?_ h.nodup
    intro id hid other hother heq
    obtain ⟨⟨id, e⟩, he, rfl⟩ := Multiset.mem_map.mp hid
    obtain ⟨⟨other, f⟩, hf, rfl⟩ := Multiset.mem_map.mp hother
    exact eq_of_index_eq ((h.mem id e).mpr he) ((h.mem other f).mpr hf) heq
  have hfull : ∀ i, i ∈ es.map (·.1.index) ↔ ∃ s, a.slots[i]? = some s ∧ s.entry? ≠ none := by
    intro i
    rw [Multiset.mem_map]
    constructor
    · rintro ⟨⟨id, e⟩, he, rfl⟩
      obtain ⟨s, hs, -, hentry⟩ := get?_eq_some.mp ((h.mem id e).mpr he)
      exact ⟨s, hs, by simp [hentry]⟩
    · rintro ⟨s, hs, hentry⟩
      obtain ⟨e, he⟩ := Option.ne_none_iff_exists'.mp hentry
      exact ⟨(⟨i, s.generation⟩, e), (h.mem _ e).mp ((get?_of_slot hs).trans he), rfl⟩
  have hdisjoint : Disjoint (es.map (·.1.index)) (a.free : Multiset Nat) := by
    rw [Multiset.disjoint_left]
    intro i hi hfree
    obtain ⟨s, hs, hentry⟩ := (hfull i).mp hi
    obtain ⟨s', hs', hnone⟩ := (h.tidy.mem_free i).mp hfree
    rw [hs] at hs'
    cases hs'
    exact hentry hnone
  have hnodup : (es.map (·.1.index) + (a.free : Multiset Nat)).Nodup :=
    Multiset.nodup_add.mpr ⟨hindex, Multiset.coe_nodup.mpr h.tidy.nodup, hdisjoint⟩
  rw [Multiset.Nodup.ext hnodup (Multiset.nodup_range _)]
  intro i
  rw [Multiset.mem_add, hfull, Multiset.mem_coe, h.tidy.mem_free, Multiset.mem_range]
  cases hs : a.slots[i]? with
  | none =>
    have := List.getElem?_eq_none_iff.mp hs
    simp only [reduceCtorEq, false_and, exists_false, or_self, false_iff]
    omega
  | some s =>
    have := (List.getElem?_eq_some_iff.mp hs).1
    cases he : s.entry? <;> simp [he, this]

/-- Every slot has an entry or is empty. -/
theorem card_add_length_free (h : a.Stores es) :
    es.card + a.free.length = a.slots.length := by
  have := congrArg Multiset.card h.indices_add_free
  rwa [Multiset.card_add, Multiset.card_map, Multiset.coe_card, Multiset.card_range] at this

/-- There are no more entries than slots. -/
theorem card_le (h : a.Stores es) : es.card ≤ a.slots.length := by
  have := h.card_add_length_free
  omega

end Stores

end Arena

end EntityQuery
