import EntityQuery.Path.Basic

/-!
# Discovery

The scalar members that are reached from a root type. Objects are entered in the order of their
declaration, collections are not. A type that is already on the way from the root is not entered
again, so discovery ends on cyclic schemas.

* `Schema.enters` — whether discovery enters an object.
* `Schema.discover` — the paths below the members of a type.
* `Schema.paths` — the paths below a root type.
-/

namespace EntityQuery

/-- The dotted name of a member of the object with the dotted name `base`. -/
def qualify (base name : String) : String := if base.isEmpty then name else base ++ "." ++ name

namespace Schema

/-- The identity of a type. -/
def identityOf (s : Schema) (t : s.Ty) : String := (s.decl t).identity

/-- The identities of all types. -/
def identities (s : Schema) : List String := s.types.toList.map (·.identity)

/-- The number of types that are not on a way. -/
def freshCount (s : Schema) (way : List String) : Nat :=
  s.identities.countP fun i => !way.contains i

/-- Whether discovery enters an object of a type at a depth: within the limit, and unless the type
is on the way already. -/
def enters (s : Schema) (limit : Option Nat) (way : List String) (depth : Nat) (t : s.Ty) : Bool :=
  limit.all (depth ≤ ·) && !way.contains (s.identityOf t)

/-- The identity of a type is among the identities. -/
theorem identityOf_mem (s : Schema) (t : s.Ty) : s.identityOf t ∈ s.identities := by
  rw [identities, identityOf, decl]
  exact List.mem_map_of_mem (Vector.mem_toList_iff.2 (Vector.getElem_mem t.isLt))

/-- Entering a type leaves fewer types that are not on the way. -/
theorem freshCount_lt {s : Schema} {limit : Option Nat} {way : List String} {depth : Nat}
    {t : s.Ty} (h : s.enters limit way depth t = true) :
    s.freshCount (way ++ [s.identityOf t]) < s.freshCount way := by
  have new : s.identityOf t ∉ way := by simpa [enters] using (Bool.and_eq_true_iff.1 h).2
  have fewer (is : List String) (mem : s.identityOf t ∈ is) :
      is.countP (fun i => !(way ++ [s.identityOf t]).contains i) <
        is.countP fun i => !way.contains i := by
    induction is with
    | nil => exact absurd mem List.not_mem_nil
    | cons i is ih =>
      have le : is.countP (fun i => !(way ++ [s.identityOf t]).contains i) ≤
          is.countP fun i => !way.contains i :=
        List.countP_mono_left fun x _ hx => by simp_all
      by_cases hi : i = s.identityOf t
      · have known : (!(way ++ [s.identityOf t]).contains i) = false := by simp [hi]
        have unknown : (!way.contains i) = true := by simp [hi, new]
        simp only [List.countP_cons, known, unknown, Bool.false_eq_true, if_false, if_true]
        omega
      · have rest := ih (List.mem_of_ne_of_mem (Ne.symm hi) mem)
        simp only [List.countP_cons]
        have same : (way ++ [s.identityOf t]).contains i = way.contains i := by
          simp [hi]
        rw [same]
        exact Nat.add_lt_add_right rest _
  exact fewer _ (s.identityOf_mem t)

/-- The paths below the members of a type. `way` holds the identities of the types from the root to
this type, `base` its dotted name and `depth` its depth. -/
def discover (s : Schema) (limit : Option Nat) (way : List String) (owner base : String)
    (depth : Nat) : List (Member s.size) → List Path
  | [] => []
  | ⟨name, .scalar kind nullable⟩ :: members =>
    ⟨qualify base name, kind, nullable, owner, depth⟩ :: s.discover limit way owner base depth members
  | ⟨_, .collection _⟩ :: members => s.discover limit way owner base depth members
  | ⟨name, .object t _⟩ :: members =>
    (if s.enters limit way (depth + 1) t then
      s.discover limit (way ++ [s.identityOf t]) (s.nameOf t) (qualify base name) (depth + 1)
        (s.decl t).members
    else []) ++ s.discover limit way owner base depth members
termination_by members => (s.freshCount way, members.length)
decreasing_by
  · exact Prod.Lex.right _ (Nat.lt_succ_self _)
  · exact Prod.Lex.right _ (Nat.lt_succ_self _)
  · exact Prod.Lex.left _ _ (freshCount_lt ‹_›)
  · exact Prod.Lex.right _ (Nat.lt_succ_self _)

/-- The paths below a root type, no deeper than the limit. -/
def paths (s : Schema) (root : s.Ty) (limit : Option Nat) : List Path :=
  s.discover limit [s.identityOf root] (s.nameOf root) "" 0 (s.decl root).members

end Schema

end EntityQuery
