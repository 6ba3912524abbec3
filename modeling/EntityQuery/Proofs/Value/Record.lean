import EntityQuery.Value.Basic
import Mathlib.Data.List.Nodup

/-!
# Records as maps

Records of different names are maps in the order of their members: a member that is inserted again
keeps its place, and one that is removed leaves the others as they are. A dotted path leads through
records within records, and may be cut anywhere on the way.

* `Record.ofPairs_of_nodup`, `Record.get?_of_mem` — records of different names.
* `Record.names_erase`, `Record.get?_erase_self`, `Record.get?_erase_of_ne` — what a removal changes.
* `Record.at?` — the value at the names of a path.
* `Record.follow_append` — names are followed in two parts.
* `Record.getPath?_dot` — a dotted path is followed in two parts.
-/

namespace EntityQuery

namespace Record

/-! ### Records of different names -/

/-- The value that stands next to a name is the value of the name, if names differ. -/
theorem get?_of_mem {r : Record} {name : String} {v : Value} (hnodup : r.names.Nodup)
    (h : (name, v) ∈ r) : r.get? name = some v := by
  induction r with
  | nil => cases h
  | cons field r ih =>
    rw [names, List.map_cons, List.nodup_cons] at hnodup
    rcases List.mem_cons.mp h with rfl | h
    · rw [get?, if_pos rfl]
    · have hne : field.1 ≠ name := fun heq => hnodup.1 (heq ▸ List.mem_map_of_mem h)
      rw [get?, if_neg hne]
      exact ih hnodup.2 h

theorem insert_of_not_mem {r : Record} {name : String} (h : name ∉ r.names) (v : Value) :
    r.insert name v = r ++ [(name, v)] := by
  induction r with
  | nil => rfl
  | cons field r ih =>
    rw [names, List.map_cons, List.mem_cons, not_or] at h
    rw [insert, if_neg (Ne.symm h.1), ih h.2, List.cons_append]

theorem insertAll_of_nodup {r : Record} {pairs : List (String × Value)}
    (h : (r.names ++ pairs.map (·.1)).Nodup) : r.insertAll pairs = r ++ pairs := by
  induction pairs generalizing r with
  | nil => exact (List.append_nil r).symm
  | cons pair pairs ih =>
    have hsplit : (r.names ++ [pair.1] ++ pairs.map (·.1)).Nodup := by
      rwa [List.append_assoc, List.singleton_append]
    have hnew : pair.1 ∉ r.names := by
      intro hmem
      exact (List.nodup_append.mp h).2.2 _ hmem _ List.mem_cons_self rfl
    have hnames : (r ++ [pair]).names = r.names ++ [pair.1] := by simp [names]
    show insertAll (r.insert pair.1 pair.2) pairs = r ++ pair :: pairs
    rw [insert_of_not_mem hnew, ih (by rw [hnames]; exact hsplit), List.append_assoc,
      List.singleton_append]

/-- Pairs of different names are a record. -/
theorem ofPairs_of_nodup {pairs : List (String × Value)} (h : (pairs.map (·.1)).Nodup) :
    ofPairs pairs = pairs :=
  insertAll_of_nodup h

/-- The names in a record are those that have a value. -/
theorem mem_names_iff {r : Record} {name : String} : name ∈ r.names ↔ r.get? name ≠ none := by
  induction r with
  | nil => exact iff_of_false List.not_mem_nil fun h => h rfl
  | cons field r ih =>
    rw [names, List.map_cons, List.mem_cons, get?]
    split
    next hname => exact iff_of_true (Or.inl hname.symm) (Option.some_ne_none _)
    next hname => rw [or_iff_right (Ne.symm hname)]; exact ih

/-! ### Removals -/

theorem names_erase (r : Record) (name : String) : (r.erase name).names = r.names.erase name := by
  induction r with
  | nil => rfl
  | cons field r ih =>
    rw [erase, names, names, List.map_cons, List.erase_cons, beq_eq_decide]
    by_cases hname : field.1 = name
    · simp [hname]
    · simp only [hname, if_false, decide_false, Bool.false_eq_true, List.map_cons]
      exact congrArg (field.1 :: ·) ih

/-- Of different names, the one that is removed is gone. -/
theorem get?_erase_self {r : Record} {name : String} (h : r.names.Nodup) :
    (r.erase name).get? name = none := by
  by_contra hsome
  rw [← ne_eq, ← mem_names_iff, names_erase] at hsome
  exact h.not_mem_erase hsome

/-- The other members keep their values. -/
theorem get?_erase_of_ne {r : Record} {name other : String} (h : name ≠ other) :
    (r.erase name).get? other = r.get? other := by
  induction r with
  | nil => rfl
  | cons field r ih =>
    rw [erase]
    split
    next hname => rw [get?, if_neg (hname ▸ h)]
    next => rw [get?, get?, ih]

/-! ### Values at paths -/

/-- The value at the names of a path. -/
def at? (r : Record) : List String → Option Value
  | [] => none
  | name :: rest => (r.get? name).bind (follow rest)

theorem getPath?_eq_at? (r : Record) (path : String) : r.getPath? path = r.at? (segments path) := by
  rw [getPath?]
  cases segments path <;> rfl

theorem follow_null (steps : List String) : follow steps .null = some .null := by
  cases steps <;> rfl

/-- Names are followed from an object like the names of a path in its record. -/
theorem follow_object {steps : List String} (h : steps ≠ []) (inner : Record) :
    follow steps (.object inner) = inner.at? steps := by
  obtain ⟨first, rest, rfl⟩ := List.exists_cons_of_ne_nil h
  rfl

/-- The value at a path of several names is in the object of the first one. -/
theorem at?_object {r inner : Record} {name : String} {rest : List String} (hrest : rest ≠ [])
    (h : r.get? name = some (.object inner)) : r.at? (name :: rest) = inner.at? rest := by
  rw [at?, h]
  exact follow_object hrest inner

theorem at?_null {r : Record} {name : String} (h : r.get? name = some .null) (rest : List String) :
    r.at? (name :: rest) = some .null := by
  rw [at?, h]
  exact follow_null rest

theorem at?_singleton {r : Record} {name : String} {v : Value} (h : r.get? name = some v) :
    r.at? [name] = some v := by
  rw [at?, h]
  rfl

/-- Names are followed in two parts: null stays null, and nothing stays nothing. -/
theorem follow_append (steps rest : List String) (v : Value) :
    follow (steps ++ rest) v = (follow steps v).bind (follow rest) := by
  induction steps generalizing v with
  | nil => rfl
  | cons first steps ih =>
    cases v with
    | object inner =>
      show (get? inner first).bind (follow (steps ++ rest)) =
        ((get? inner first).bind (follow steps)).bind (follow rest)
      rw [Option.bind_assoc]
      exact congrArg _ (funext ih)
    | null => exact (follow_null rest).symm
    | _ => rfl

theorem at?_append {steps : List String} (h : steps ≠ []) (r : Record) (rest : List String) :
    r.at? (steps ++ rest) = (r.at? steps).bind (follow rest) := by
  rw [← follow_object h, ← follow_append, follow_object (List.append_ne_nil_of_left_ne_nil h rest)]

/-- A dotted path may be cut at every dot: the second part is looked up in the object at the first
one. Below null there is null, and below anything else there is nothing. -/
theorem getPath?_dot (r : Record) (a b : String) :
    r.getPath? (a ++ "." ++ b) =
      match r.getPath? a with
      | some (.object inner) => Record.getPath? inner b
      | some .null => some .null
      | _ => none := by
  have hrest := segments_ne_nil b
  rw [getPath?_eq_at?, segments_append, at?_append (segments_ne_nil a), ← getPath?_eq_at?]
  split
  next inner hfound =>
    rw [hfound, getPath?_eq_at?]
    exact follow_object hrest inner
  next hfound =>
    rw [hfound]
    exact follow_null _
  next hobject hnull =>
    -- of other values no name is followed
    obtain ⟨first, rest, hsegments⟩ := List.exists_cons_of_ne_nil hrest
    rw [hsegments]
    cases hfound : r.getPath? a with
    | none => rfl
    | some v =>
      cases v with
      | object inner => exact absurd hfound (hobject inner)
      | null => exact absurd hfound hnull
      | _ => rfl

end Record

end EntityQuery
