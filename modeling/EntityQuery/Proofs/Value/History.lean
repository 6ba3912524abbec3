import EntityQuery.Proofs.Value.Record
import EntityQuery.Value.Edit
import Mathlib.Data.List.DropRight

/-!
# Records remember their history

The history of a record are the insertions and removals since it was collected, or since it was
empty. A member has the value that was inserted last since it was removed, and the members stand in
the order in which they were inserted first since then.

* `MemberChange`, `RecordEdit.history` — what happens to members in the course of edits.
* `MemberChange.insertions`, `MemberChange.arrival` — the values inserted under a name since it was
  removed, and the time of the first of them.
* `Record.Remembers` — a record is the ordered map of a history.
* `Record.Remembers.insert`, `Record.Remembers.erase` — one change more.
* `Record.remembers_run` — the record after any edits of the empty record.
-/

namespace EntityQuery

/-- A value is inserted under a name, or the name is removed if there is no value. -/
structure MemberChange where
  name : String
  value? : Option Value

/-- What has happened to members in the course of edits, since a record was collected last. -/
def RecordEdit.history (edits : List RecordEdit) : List MemberChange :=
  edits.foldl (fun changes e =>
    match e with
    | .insert name value => changes ++ [⟨name, some value⟩]
    | .erase name => changes ++ [⟨name, none⟩]
    | .collect pairs => pairs.map fun (name, value) => ⟨name, some value⟩) []

namespace MemberChange

variable {changes : List MemberChange} {c : MemberChange} {name : String} {value : Value}

/-- The changes since a name was removed last; all of them if it never was. -/
def sinceRemoval (changes : List MemberChange) (name : String) : List MemberChange :=
  changes.rtakeWhile fun c => c.name != name || c.value?.isSome

/-- The values that were inserted under a name since it was removed last. -/
def insertions (changes : List MemberChange) (name : String) : List Value :=
  (sinceRemoval changes name).filterMap fun c => if c.name = name then c.value? else none

/-- How many changes there were before a name was inserted first since it was removed last. -/
def arrival (changes : List MemberChange) (name : String) : Nat :=
  changes.length - (sinceRemoval changes name).length +
    (sinceRemoval changes name).findIdx (·.name == name)

/-! ### One change more -/

theorem sinceRemoval_concat (h : c.name ≠ name ∨ c.value?.isSome) :
    sinceRemoval (changes ++ [c]) name = sinceRemoval changes name ++ [c] := by
  have hkept : (c.name != name || c.value?.isSome) = true := by
    rcases h with h | h <;> simp [h]
  rw [sinceRemoval, List.rtakeWhile_concat, if_pos hkept, sinceRemoval]

theorem insertions_insert (changes : List MemberChange) (name : String) (value : Value) :
    insertions (changes ++ [⟨name, some value⟩]) name = insertions changes name ++ [value] := by
  rw [insertions, sinceRemoval_concat (Or.inr rfl), List.filterMap_append]
  simp [insertions]

theorem insertions_remove (changes : List MemberChange) (name : String) :
    insertions (changes ++ [⟨name, none⟩]) name = [] := by
  simp [insertions, sinceRemoval]

/-- A change of another name inserts nothing under a name, and does not remove it. -/
theorem insertions_of_ne (h : c.name ≠ name) :
    insertions (changes ++ [c]) name = insertions changes name := by
  rw [insertions, sinceRemoval_concat (Or.inl h), List.filterMap_append]
  simp [insertions, h]

/-- Where a name occurs since it was removed, a value was inserted. -/
theorem insertions_ne_nil_iff :
    insertions changes name ≠ [] ↔ ∃ c ∈ sinceRemoval changes name, c.name = name := by
  rw [insertions, ne_eq, List.filterMap_eq_nil_iff]
  push Not
  refine exists_congr fun c => and_congr_right fun hc => ?_
  have hinserted := List.mem_rtakeWhile_imp hc
  by_cases hname : c.name = name
  · rw [if_pos hname]
    simp only [hname, bne_self_eq_false, Bool.false_or] at hinserted
    exact iff_of_true (Option.isSome_iff_ne_none.mp hinserted) hname
  · rw [if_neg hname]
    exact iff_of_false (fun h => h rfl) hname

theorem length_sinceRemoval_le (changes : List MemberChange) (name : String) :
    (sinceRemoval changes name).length ≤ changes.length :=
  (List.rtakeWhile_suffix _ _).length_le

/-- A name that was inserted is found among the changes since it was removed. -/
theorem findIdx_sinceRemoval_lt (h : insertions changes name ≠ []) :
    (sinceRemoval changes name).findIdx (·.name == name) <
      (sinceRemoval changes name).length := by
  obtain ⟨c, hc, hname⟩ := insertions_ne_nil_iff.mp h
  exact List.findIdx_lt_length_of_exists ⟨c, hc, beq_iff_eq.mpr hname⟩

/-- A name that was inserted has arrived. -/
theorem arrival_lt (h : insertions changes name ≠ []) : arrival changes name < changes.length := by
  have hfound := findIdx_sinceRemoval_lt h
  have hle := length_sinceRemoval_le changes name
  rw [arrival]
  omega

/-- A name that has arrived keeps its time until it is removed. -/
theorem arrival_kept (hin : insertions changes name ≠ [])
    (hkept : c.name ≠ name ∨ c.value?.isSome) :
    arrival (changes ++ [c]) name = arrival changes name := by
  rw [arrival, arrival, sinceRemoval_concat hkept, List.findIdx_append,
    if_pos (findIdx_sinceRemoval_lt hin), List.length_append, List.length_append, Nat.add_sub_add_right]

/-- A name that was not there arrives when it is inserted. -/
theorem arrival_new (hnew : insertions changes name = []) (value : Value) :
    arrival (changes ++ [⟨name, some value⟩]) name = changes.length := by
  have hnone : (sinceRemoval changes name).findIdx (·.name == name) =
      (sinceRemoval changes name).length := by
    rw [List.findIdx_eq_length]
    intro c hc
    rw [beq_eq_false_iff_ne]
    exact fun hname => insertions_ne_nil_iff.mpr ⟨c, hc, hname⟩ hnew
  have hle := length_sinceRemoval_le changes name
  rw [arrival, sinceRemoval_concat (Or.inr rfl), List.findIdx_append, hnone,
    if_neg (Nat.lt_irrefl _), List.length_append, List.length_append, Nat.add_sub_add_right]
  simp
  omega

end MemberChange

/-! ### Records of histories -/

namespace Record

open MemberChange

/-- A record is the ordered map of a history. -/
structure Remembers (r : Record) (changes : List MemberChange) : Prop where
  /-- A name has the value that was inserted last since it was removed, if any was. -/
  value (name : String) : r.get? name = (insertions changes name).getLast?
  /-- The names stand in the order in which they were inserted first since they were removed. -/
  order : r.names.Pairwise fun a b => arrival changes a < arrival changes b

variable {r : Record} {changes : List MemberChange}

theorem Remembers.nodup (h : r.Remembers changes) : r.names.Nodup :=
  h.order.imp fun hlt => ne_of_apply_ne (arrival changes) hlt.ne

theorem Remembers.mem_names_iff (h : r.Remembers changes) {name : String} :
    name ∈ r.names ↔ insertions changes name ≠ [] := by
  rw [Record.mem_names_iff, h.value, ne_eq, List.getLast?_eq_none_iff]

/-- Names that keep their times keep their order. -/
theorem Remembers.order_of_kept (h : r.Remembers changes) {names : List String} {c : MemberChange}
    (hsub : names.Sublist r.names) (hkept : ∀ name ∈ names, c.name ≠ name ∨ c.value?.isSome) :
    names.Pairwise fun a b => arrival (changes ++ [c]) a < arrival (changes ++ [c]) b := by
  refine (h.order.sublist hsub).imp_of_mem fun {a b} ha hb hlt => ?_
  rw [arrival_kept (h.mem_names_iff.mp (hsub.subset ha)) (hkept a ha),
    arrival_kept (h.mem_names_iff.mp (hsub.subset hb)) (hkept b hb)]
  exact hlt

theorem Remembers.insert (h : r.Remembers changes) (name : String) (value : Value) :
    (r.insert name value).Remembers (changes ++ [⟨name, some value⟩]) where
  value other := by
    by_cases hother : name = other
    · rw [← hother, get?_insert_self, insertions_insert, List.getLast?_concat]
    · rw [get?_insert_of_ne hother, insertions_of_ne hother, h.value]
  order := by
    have hold := h.order_of_kept (c := ⟨name, some value⟩) (List.Sublist.refl _)
      fun _ _ => Or.inr rfl
    rw [names_insert]
    split
    next => exact hold
    next hnew =>
      rw [h.mem_names_iff, not_not] at hnew
      refine List.pairwise_append.mpr ⟨hold, List.pairwise_singleton _ _, fun a ha b hb => ?_⟩
      have hin := h.mem_names_iff.mp ha
      rw [List.mem_singleton.mp hb, arrival_new hnew, arrival_kept hin (Or.inr rfl)]
      exact arrival_lt hin

theorem Remembers.erase (h : r.Remembers changes) (name : String) :
    (r.erase name).Remembers (changes ++ [⟨name, none⟩]) where
  value other := by
    by_cases hother : name = other
    · rw [← hother, get?_erase_self h.nodup, insertions_remove, List.getLast?_nil]
    · rw [get?_erase_of_ne hother, insertions_of_ne hother, h.value]
  order := by
    rw [names_erase]
    refine h.order_of_kept List.erase_sublist fun other hother => Or.inl ?_
    exact Ne.symm (h.nodup.mem_erase_iff.mp hother).1

theorem remembers_nil : Remembers [] [] where
  value _ := rfl
  order := List.Pairwise.nil

theorem Remembers.insertAll (h : r.Remembers changes) (pairs : List (String × Value)) :
    (r.insertAll pairs).Remembers
      (changes ++ pairs.map fun (name, value) => ⟨name, some value⟩) := by
  induction pairs generalizing r changes with
  | nil => rwa [List.map_nil, List.append_nil]
  | cons pair pairs ih =>
    have hnext := ih (h.insert pair.1 pair.2)
    rwa [List.append_assoc, List.singleton_append] at hnext

/-- The record after any edits of the empty record is the ordered map of their history. So its names
differ, and those that are present were inserted since they were removed. An insertion and a removal
tell the value that the name had before. -/
theorem remembers_run (edits : List RecordEdit) :
    let r := run [] edits
    let changes := RecordEdit.history edits
    r.names.Nodup ∧ r.Remembers changes ∧
      (∀ name, name ∈ r.names ↔ insertions changes name ≠ []) ∧
      (∀ name value, (r.perform (.insert name value)).1 = (insertions changes name).getLast?) ∧
      ∀ name, (r.perform (.erase name)).1 = (insertions changes name).getLast? := by
  have hrun : (run [] edits).Remembers (RecordEdit.history edits) := by
    induction edits using List.reverseRecOn with
    | nil => exact remembers_nil
    | append_singleton edits e ih =>
      rw [run, RecordEdit.history, List.foldl_concat, List.foldl_concat, ← run,
        ← RecordEdit.history]
      cases e with
      | insert name value =>
        rw [perform, getThenInsert_eq]
        exact ih.insert name value
      | erase name =>
        rw [perform, getThenErase_eq]
        exact ih.erase name
      | collect pairs => exact remembers_nil.insertAll pairs
  refine ⟨hrun.nodup, hrun, fun name => hrun.mem_names_iff, fun name value => ?_, fun name => ?_⟩
  · rw [perform, getThenInsert_eq, hrun.value]
  · rw [perform, getThenErase_eq, hrun.value]

/-- A name that is replaced keeps its place; one that is removed and inserted again stands last. -/
example :
    (run [] [.insert "a" .null, .insert "b" .null, .insert "a" (.bool true), .erase "a",
      .insert "a" .null, .insert "b" (.bool true)]).names = ["b", "a"] := by
  cbv

end Record

end EntityQuery
