import EntityQuery.Path.Basic

/-!
# Path filters

A `PathFilter` says which of the discovered paths are offered. All its rules apply.

* `PathFilter.allows` — the paths a filter keeps.
* `ruleMatches` — a rule names a path itself or an object on the way to it.
-/

namespace EntityQuery

/-- Rules for the paths that are offered. An empty `included` list keeps every path. -/
structure PathFilter where
  included : List String := []
  excluded : List String := []
  excludedOwners : List String := []
  maxDepth : Option Nat := none
  deriving DecidableEq, Repr, Inhabited

/-- Whether a rule names a path, or an object on the way to it. -/
def ruleMatches (rule name : String) : Bool :=
  name == rule || (rule.toList ++ ['.']).isPrefixOf name.toList

namespace PathFilter

/-- Whether a depth is within a limit. -/
def withinDepth (limit : Option Nat) (depth : Nat) : Bool := limit.all (depth ≤ ·)

/-- The paths a filter keeps. -/
def allows (f : PathFilter) (p : Path) : Bool :=
  withinDepth f.maxDepth p.depth &&
    (!f.excludedOwners.contains p.owner &&
      (!f.excluded.any (ruleMatches · p.fullName) &&
        (f.included.isEmpty || f.included.any (ruleMatches · p.fullName))))

/-- The filter with a depth limit in case it has none. -/
def orDepth (f : PathFilter) (limit : Option Nat) : PathFilter :=
  { f with maxDepth := f.maxDepth.or limit }

/-- A filter's own limit takes precedence. -/
theorem orDepth_of_isSome {f : PathFilter} (h : f.maxDepth.isSome) (limit : Option Nat) :
    f.orDepth limit = f := by
  obtain ⟨d, hd⟩ := Option.isSome_iff_exists.1 h
  cases f
  simp_all [orDepth]

end PathFilter

/-- A rule names a path exactly when its segments start the segments of the path. -/
theorem ruleMatches_iff (rule name : String) :
    ruleMatches rule name = true ↔ segments rule <+: segments name := by
  rw [ruleMatches, Bool.or_eq_true, beq_iff_eq, List.isPrefixOf_iff_prefix]
  constructor
  · rintro (rfl | ⟨rest, h⟩)
    · exact List.prefix_rfl
    · rw [segments, segments, ← h, List.append_assoc, List.singleton_append, pieces_append,
        List.map_append]
      exact List.prefix_append ..
  · rintro ⟨rest, h⟩
    have joined : name.toList =
        joinPieces '.' (pieces '.' rule.toList ++ rest.map String.toList) := by
      have back := congrArg (List.map String.toList) h
      simp only [segments, List.map_append, List.map_map, Function.comp_def, String.toList_ofList,
        List.map_id'] at back
      rw [back, joinPieces_pieces]
    cases rest with
    | nil =>
      left
      rw [List.map_nil, List.append_nil, joinPieces_pieces] at joined
      exact String.toList_injective joined
    | cons piece others =>
      right
      refine ⟨joinPieces '.' ((piece :: others).map String.toList), ?_⟩
      rw [joined, joinPieces_append (by simp [pieces]) (by simp), joinPieces_pieces, List.append_assoc]
      rfl

end EntityQuery
