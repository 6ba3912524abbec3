import Mathlib.Tactic.Common
import EntityQuery.Path.Walk

/-!
# Walks yield what discovery finds

A walk keeps the types that it has entered on a stack and gives one path after the other. It comes to
an end on every schema, and it gives the paths that a recursion over the members lists.

* `Schema.Enterable`, `Schema.Lists` — the recursion as rules, one for each kind of member.
* `Schema.lists_iff` — discovery finds what the rules list.
* `Walk.Yields` — the paths that a walk gives, up to its end.
* `Walk.remaining_eq` — what is left of a walk after its next path.
* `Walk.yields_start` — a walk from a root type ends and yields what the rules list.
-/

namespace EntityQuery

namespace Schema

variable {s : Schema} {limit : Option Nat}

/-! ### The recursion as rules -/

/-- An object may be entered if its members are no deeper than the limit and its type is not among
the types from the root to it. Types are told apart by their identity. -/
def Enterable (s : Schema) (limit : Option Nat) (branch : List s.Ty) (depth : Nat) (t : s.Ty) :
    Prop :=
  (∀ max, limit = some max → depth ≤ max) ∧ ∀ b ∈ branch, s.identityOf b ≠ s.identityOf t

/-- The paths below members of a type in the order of their declaration, depth first. `branch` are
the types from the root to this type. -/
inductive Lists (s : Schema) (limit : Option Nat) :
    List s.Ty → s.Ty → String → Nat → List (Member s.size) → List Path → Prop where
  | none {branch : List s.Ty} {t : s.Ty} {base : String} {depth : Nat} :
      Lists s limit branch t base depth [] []
  | scalar {branch : List s.Ty} {t : s.Ty} {base name : String} {depth : Nat} {kind : Kind}
      {nullable : Bool} {members : List (Member s.size)} {ps : List Path} :
      Lists s limit branch t base depth members ps →
      Lists s limit branch t base depth (⟨name, .scalar kind nullable⟩ :: members)
        (⟨qualify base name, kind, nullable, s.nameOf t, depth⟩ :: ps)
  | collection {branch : List s.Ty} {t : s.Ty} {base name element : String} {depth : Nat}
      {members : List (Member s.size)} {ps : List Path} :
      Lists s limit branch t base depth members ps →
      Lists s limit branch t base depth (⟨name, .collection element⟩ :: members) ps
  | entered {branch : List s.Ty} {t target : s.Ty} {base name : String} {depth : Nat}
      {nullable : Bool} {members : List (Member s.size)} {inner ps : List Path} :
      s.Enterable limit branch (depth + 1) target →
      Lists s limit (branch ++ [target]) target (qualify base name) (depth + 1)
        (s.decl target).members inner →
      Lists s limit branch t base depth members ps →
      Lists s limit branch t base depth (⟨name, .object target nullable⟩ :: members) (inner ++ ps)
  | passed {branch : List s.Ty} {t target : s.Ty} {base name : String} {depth : Nat}
      {nullable : Bool} {members : List (Member s.size)} {ps : List Path} :
      ¬ s.Enterable limit branch (depth + 1) target →
      Lists s limit branch t base depth members ps →
      Lists s limit branch t base depth (⟨name, .object target nullable⟩ :: members) ps

theorem enters_iff {branch : List s.Ty} {depth : Nat} {t : s.Ty} :
    s.enters limit (branch.map s.identityOf) depth t = true ↔
      s.Enterable limit branch depth t := by
  rw [enters, Enterable, Bool.and_eq_true, Option.all_eq_true]
  apply and_congr
  · exact forall₂_congr fun max _ => decide_eq_true_iff
  · rw [Bool.not_eq_true', ← Bool.not_eq_true, List.contains_iff_mem, List.mem_map]
    push Not
    rfl

theorem map_identityOf_append (branch : List s.Ty) (t : s.Ty) :
    (branch ++ [t]).map s.identityOf = branch.map s.identityOf ++ [s.identityOf t] := by
  rw [List.map_append, List.map_singleton]

/-- What the rules list is what discovery finds. -/
theorem Lists.eq_discover {branch : List s.Ty} {t : s.Ty} {base : String} {depth : Nat}
    {members : List (Member s.size)} {ps : List Path}
    (h : s.Lists limit branch t base depth members ps) :
    ps = s.discover limit (branch.map s.identityOf) (s.nameOf t) base depth members := by
  induction h with
  | none => rw [discover]
  | scalar _ ih => rw [discover, ← ih]
  | collection _ ih => rw [discover, ← ih]
  | entered henter _ _ ihinner ih =>
    rw [discover, if_pos (enters_iff.mpr henter), ← map_identityOf_append, ← ihinner, ← ih]
  | passed hpass _ ih =>
    rw [discover, if_neg (mt enters_iff.mp hpass), List.nil_append, ← ih]

/-- The rules list what discovery finds. -/
theorem lists_discover (branch : List s.Ty) (t : s.Ty) (base : String) (depth : Nat)
    (members : List (Member s.size)) :
    s.Lists limit branch t base depth members
      (s.discover limit (branch.map s.identityOf) (s.nameOf t) base depth members) := by
  generalize hway : branch.map s.identityOf = way
  generalize howner : s.nameOf t = owner
  induction way, owner, base, depth, members using discover.induct s limit
    generalizing branch t with
  | case1 way owner base depth =>
    rw [discover]
    exact .none
  | case2 way owner base depth name kind nullable members ih =>
    rw [discover, ← howner]
    exact .scalar (howner ▸ ih branch t hway howner)
  | case3 way owner base depth name element members ih =>
    rw [discover]
    exact .collection (ih branch t hway howner)
  | case4 way owner base depth name target nullable members ihinner ih =>
    rw [discover]
    subst hway
    split
    · rename_i henters
      exact .entered (enters_iff.mp henters)
        (ihinner henters (branch ++ [target]) target (map_identityOf_append branch target) rfl)
        (ih branch t rfl howner)
    · rename_i hpasses
      exact .passed (mt enters_iff.mpr hpasses) (ih branch t rfl howner)

/-- Discovery finds exactly what the rules list. -/
theorem lists_iff {branch : List s.Ty} {t : s.Ty} {base : String} {depth : Nat}
    {members : List (Member s.size)} {ps : List Path} :
    s.Lists limit branch t base depth members ps ↔
      ps = s.discover limit (branch.map s.identityOf) (s.nameOf t) base depth members := by
  constructor
  · exact Lists.eq_discover
  · rintro rfl
    exact lists_discover branch t base depth members

end Schema

namespace Walk

variable {s : Schema} {limit : Option Nat}

/-! ### The paths of a walk -/

/-- A walk gives these paths one after the other, and then there is no next one. -/
inductive Yields : Walk s → List Path → Prop where
  | finished {w : Walk s} : w.next? = none → Yields w []
  | next {w rest : Walk s} {p : Path} {ps : List Path} :
      w.next? = some (p, rest) → Yields rest ps → Yields w (p :: ps)

/-- The paths below the members that the frames of a walk have still to visit. -/
def remaining (limit : Option Nat) (frames : List (Frame s)) : List Path :=
  frames.flatMap fun f => s.discover limit f.way f.owner f.base f.depth f.members

theorem remaining_cons (f : Frame s) (frames : List (Frame s)) :
    remaining limit (f :: frames) =
      s.discover limit f.way f.owner f.base f.depth f.members ++ remaining limit frames :=
  List.flatMap_cons ..

/-- What is left of a walk is its next path, and what is left after it. -/
theorem remaining_eq (limit : Option Nat) (frames : List (Frame s)) :
    remaining limit frames =
      (advance? limit frames).elim [] fun next => next.1 :: remaining limit next.2 := by
  fun_induction advance? limit frames with
  | case1 => rfl
  | case2 way owner base depth below ih =>
    rw [remaining_cons, Schema.discover, List.nil_append, ih]
  | case3 way owner base depth name kind nullable members below =>
    rw [remaining_cons, Schema.discover, Option.elim_some, remaining_cons, List.cons_append]
  | case4 way owner base depth name element members below ih =>
    rw [← ih, remaining_cons, remaining_cons, Schema.discover]
  | case5 way owner base depth name t nullable members below enters ih =>
    -- the members of the entered type come before the other members of its object
    rw [← ih, remaining_cons, remaining_cons, remaining_cons, Schema.discover, if_pos enters,
      List.append_assoc]
    rfl
  | case6 way owner base depth name t nullable members below enters ih =>
    rw [← ih, remaining_cons, remaining_cons, Schema.discover, if_neg enters, List.nil_append]

/-- A walk yields what is left of it. -/
theorem yields_remaining (limit : Option Nat) (frames : List (Frame s)) :
    Yields ⟨limit, frames⟩ (remaining limit frames) := by
  generalize hleft : remaining limit frames = left
  induction left generalizing frames with
  | nil =>
    cases hnext : advance? limit frames with
    | none => exact .finished (by rw [next?, hnext, Option.map_none])
    | some found =>
      rw [remaining_eq, hnext] at hleft
      cases hleft
  | cons p ps ih =>
    cases hnext : advance? limit frames with
    | none =>
      rw [remaining_eq, hnext] at hleft
      cases hleft
    | some found =>
      obtain ⟨q, rest⟩ := found
      rw [remaining_eq, hnext, Option.elim_some, List.cons.injEq] at hleft
      obtain ⟨rfl, hrest⟩ := hleft
      exact .next (by rw [next?, hnext, Option.map_some]) (ih rest hrest)

/-- A walk yields one sequence of paths only. -/
theorem Yields.unique {w : Walk s} {ps qs : List Path} (hp : w.Yields ps) (hq : w.Yields qs) :
    ps = qs := by
  induction hp generalizing qs with
  | finished hend =>
    cases hq with
    | finished => rfl
    | next hnext => rw [hend] at hnext; cases hnext
  | next hnext _ ih =>
    cases hq with
    | finished hend => rw [hend] at hnext; cases hnext
    | next hother hrest =>
      rw [hnext, Option.some.injEq, Prod.mk.injEq] at hother
      obtain ⟨rfl, rfl⟩ := hother
      rw [ih hrest]

/-- All paths of a walk are those that it yields. -/
theorem toList_eq_remaining (w : Walk s) : w.toList = remaining w.limit w.frames := by
  fun_induction toList w with
  | case1 w hend => rw [remaining_eq, hend, Option.elim_none]
  | case2 w p frames hnext ih => rw [remaining_eq, hnext, Option.elim_some, ih]

theorem remaining_start (root : s.Ty) (limit : Option Nat) :
    remaining limit (start s root limit).frames = s.paths root limit := by
  rw [start, remaining_cons, Schema.paths]
  exact List.append_nil _

/-- All paths of a walk from a root type are those that discovery finds. -/
theorem toList_start (root : s.Ty) (limit : Option Nat) :
    (start s root limit).toList = s.paths root limit :=
  (toList_eq_remaining _).trans (remaining_start root limit)

/-- A walk from a root type comes to an end. It yields the paths that the rules list below the
members of the root, in their order, and nothing else; these are the paths of the root. -/
theorem yields_start (root : s.Ty) (limit : Option Nat) :
    (∀ ps, (start s root limit).Yields ps ↔
        s.Lists limit [root] root "" 0 (s.decl root).members ps) ∧
      (start s root limit).Yields (s.paths root limit) ∧
      (start s root limit).toList = s.paths root limit := by
  have hyields : (start s root limit).Yields (s.paths root limit) :=
    remaining_start root limit ▸ yields_remaining limit _
  refine ⟨fun ps => ?_, hyields, toList_start root limit⟩
  rw [Schema.lists_iff]
  constructor
  · exact fun h => h.unique hyields
  · rintro rfl
    exact hyields

end Walk

end EntityQuery
