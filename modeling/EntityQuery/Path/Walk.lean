import EntityQuery.Path.Discovery

/-!
# Walks

A `Walk` discovers the paths below a root type one by one, so that the first paths of a large schema
are found without looking for the others.

* `Walk.start` — the walk before the first path.
* `Walk.next?` — the next path, and the walk after it.
* `Walk.first` — the first paths of a walk.
* `Walk.toList` — all its paths.
-/

namespace EntityQuery

/-- A type that a walk has entered: the identities of the types on the way to it, its name, its
dotted name, its depth and the members that are still to be visited. -/
structure Frame (s : Schema) where
  way : List String
  owner : String
  base : String
  depth : Nat
  members : List (Member s.size)

/-- The entered types of a walk, the innermost one first. -/
structure Walk (s : Schema) where
  limit : Option Nat
  frames : List (Frame s)

namespace Walk

variable {s : Schema}

/-- The frame of a type. -/
def frameOf (s : Schema) (way : List String) (base : String) (depth : Nat) (t : s.Ty) : Frame s :=
  ⟨way ++ [s.identityOf t], s.nameOf t, base, depth, (s.decl t).members⟩

/-- The walk before the first path. -/
def start (s : Schema) (root : s.Ty) (limit : Option Nat) : Walk s :=
  ⟨limit, [frameOf s [] "" 0 root]⟩

/-! ### The length of a walk -/

/-- The number of steps below the members of a type. -/
def memberSteps (limit : Option Nat) (way : List String) (depth : Nat) :
    List (Member s.size) → Nat
  | [] => 1
  | ⟨_, .object t _⟩ :: members =>
    1 + (if s.enters limit way (depth + 1) t then
      memberSteps limit (way ++ [s.identityOf t]) (depth + 1) (s.decl t).members
    else 0) + memberSteps limit way depth members
  | ⟨_, .scalar ..⟩ :: members | ⟨_, .collection _⟩ :: members =>
    1 + memberSteps limit way depth members
termination_by members => (s.freshCount way, members.length)
decreasing_by
  · exact Prod.Lex.left _ _ (Schema.freshCount_lt ‹_›)
  · exact Prod.Lex.right _ (Nat.lt_succ_self _)
  · exact Prod.Lex.right _ (Nat.lt_succ_self _)
  · exact Prod.Lex.right _ (Nat.lt_succ_self _)

/-- The number of steps that a walk still takes. -/
def steps (limit : Option Nat) : List (Frame s) → Nat
  | [] => 0
  | f :: below => memberSteps limit f.way f.depth f.members + steps limit below

/-! ### Steps -/

/-- The next path and the frames after it. A finished frame is left, a scalar member is a path, and
an object is entered where discovery enters it. -/
def advance? (limit : Option Nat) : List (Frame s) → Option (Path × List (Frame s))
  | [] => none
  | ⟨_, _, _, _, []⟩ :: below => advance? limit below
  | ⟨way, owner, base, depth, ⟨name, .scalar kind nullable⟩ :: members⟩ :: below =>
    some (⟨qualify base name, kind, nullable, owner, depth⟩,
      ⟨way, owner, base, depth, members⟩ :: below)
  | ⟨way, owner, base, depth, ⟨_, .collection _⟩ :: members⟩ :: below =>
    advance? limit (⟨way, owner, base, depth, members⟩ :: below)
  | ⟨way, owner, base, depth, ⟨name, .object t _⟩ :: members⟩ :: below =>
    if s.enters limit way (depth + 1) t then
      advance? limit (frameOf s way (qualify base name) (depth + 1) t ::
        ⟨way, owner, base, depth, members⟩ :: below)
    else advance? limit (⟨way, owner, base, depth, members⟩ :: below)
termination_by frames => steps limit frames
decreasing_by all_goals (simp [steps, memberSteps, frameOf, *]; try omega)

/-- The next path, and the walk after it. -/
def next? (w : Walk s) : Option (Path × Walk s) :=
  (advance? w.limit w.frames).map fun (p, frames) => (p, ⟨w.limit, frames⟩)

/-- The first paths of a walk, at most the given number of them. -/
def first : Nat → Walk s → List Path
  | 0, _ => []
  | n + 1, w =>
    match w.next? with
    | none => []
    | some (p, rest) => p :: first n rest

/-- A path brings a walk closer to its end. -/
theorem steps_advance?_lt {limit : Option Nat} {frames rest : List (Frame s)} {p : Path}
    (h : advance? limit frames = some (p, rest)) : steps limit rest < steps limit frames := by
  fun_induction advance? limit frames with
  | case1 => cases h
  | case2 _ _ _ _ _ ih =>
    have := ih h
    simp only [steps, memberSteps]
    omega
  | case3 =>
    cases h
    simp [steps, memberSteps]
  | case4 _ _ _ _ _ _ _ _ ih =>
    have := ih h
    simp only [steps, memberSteps] at this ⊢
    omega
  | case5 _ _ _ _ _ _ _ _ _ enters ih =>
    have := ih h
    simp only [steps, memberSteps, frameOf, enters, if_true] at this ⊢
    omega
  | case6 _ _ _ _ _ _ _ _ _ enters ih =>
    have := ih h
    simp only [steps, memberSteps, enters] at this ⊢
    omega

/-- All paths of a walk. -/
def toList (w : Walk s) : List Path :=
  match _found : advance? w.limit w.frames with
  | none => []
  | some (p, frames) => p :: toList ⟨w.limit, frames⟩
termination_by steps w.limit w.frames
decreasing_by exact steps_advance?_lt ‹_›

end Walk

end EntityQuery
