import EntityQuery.Projection
import EntityQuery.Proofs.Entity.Members
import EntityQuery.Proofs.Path.Leading

/-!
# Projections by groups of names

Names are grouped segment by segment. The group of a segment holds the names that start with it,
without it; the binding of a group depends on the group only.

* `NameTree.ofSteps`, `NameTree.lookup_ofSteps` — the group of a segment.
* `Binding.ofGroups_ok` — names that lead to scalar members have bindings.
* `Binding.get?_values_some` — the value of a member is the one that its binding builds.
* `Projection.exists_ofPaths?` — paths that lead to scalar members have a projection.
-/

namespace EntityQuery

/-! ### Groups -/

namespace NameTree

/-- The groups of the segments. -/
def children : NameTree → List (String × NameTree)
  | .node children => children

/-- The group of a segment. -/
def lookup (name : String) : List (String × NameTree) → Option NameTree
  | [] => none
  | (n, t) :: groups => if n = name then some t else lookup name groups

/-- The groups of names that are given by their segments. -/
def ofSteps (names : List (List String)) : NameTree := names.foldl (fun t l => insert l t) leaf

/-- What follows a first segment. -/
def rest? (name : String) : List String → Option (List String)
  | [] => none
  | first :: rest => if first = name then some rest else none

/-- What follows a first segment in the names that start with it. -/
def rests (name : String) (names : List (List String)) : List (List String) :=
  names.filterMap (rest? name)

theorem ofNames_eq_ofSteps (names : List String) :
    ofNames names = ofSteps (names.map segments) := by
  rw [ofNames, ofSteps, List.foldl_map]

theorem mem_rests {name : String} {rest : List String} {names : List (List String)} :
    rest ∈ rests name names ↔ name :: rest ∈ names := by
  rw [rests, List.mem_filterMap]
  constructor
  · rintro ⟨l, hl, hrest⟩
    cases l with
    | nil => cases hrest
    | cons first others =>
      rw [rest?] at hrest
      split at hrest
      · rename_i hfirst
        cases hrest
        exact hfirst ▸ hl
      · cases hrest
  · intro h
    exact ⟨_, h, by rw [rest?, if_pos rfl]⟩

theorem lookup_alter (name other : String) (f : NameTree → NameTree)
    (groups : List (String × NameTree)) :
    lookup other (alter name f groups) =
      if name = other then some (f ((lookup name groups).getD leaf)) else lookup other groups := by
  induction groups with
  | nil => simp only [alter, lookup, Option.getD_none]
  | cons group groups ih =>
    rw [alter]
    by_cases hname : group.1 = name
    · subst hname
      rw [if_pos rfl, lookup, lookup, lookup, if_pos rfl, Option.getD_some]
      split <;> rfl
    · rw [if_neg hname, lookup, lookup, lookup, if_neg hname, ih]
      by_cases hother : name = other
      · subst hother
        rw [if_pos rfl, if_pos rfl, if_neg hname]
      · rw [if_neg hother, if_neg hother]

theorem children_insert (first : String) (rest : List String) (t : NameTree) :
    (insert (first :: rest) t).children = alter first (insert rest) t.children := by
  cases t
  rfl

/-- The group of a segment is made of what follows it. -/
theorem lookup_ofSteps (name : String) (names : List (List String)) :
    lookup name (ofSteps names).children =
      if rests name names = [] then none else some (ofSteps (rests name names)) := by
  induction names using List.reverseRecOn with
  | nil => rfl
  | append_singleton names l ih =>
    have hinsert : ofSteps (names ++ [l]) = insert l (ofSteps names) := by
      rw [ofSteps, List.foldl_append]
      rfl
    have hrests : rests name (names ++ [l]) = rests name names ++ (rest? name l).toList := by
      rw [rests, List.filterMap_append]
      cases h : rest? name l <;> simp [rests, h]
    rw [hinsert, hrests]
    cases l with
    | nil => rw [insert, ih, rest?, Option.toList_none, List.append_nil]
    | cons first rest =>
      rw [children_insert, lookup_alter, rest?]
      by_cases hfirst : first = name
      · subst hfirst
        rw [if_pos rfl, if_pos rfl, Option.toList_some, if_neg (by simp), ih]
        have hlast : ofSteps (rests first names ++ [rest]) =
            insert rest (ofSteps (rests first names)) := by
          rw [ofSteps, List.foldl_append]
          rfl
        rw [hlast]
        split
        · rename_i hempty
          rw [hempty]
          rfl
        · rfl
      · rw [if_neg hfirst, if_neg hfirst, Option.toList_none, List.append_nil, ih]

/-- Every segment has one group. -/
theorem nodup_ofSteps (names : List (List String)) :
    ((ofSteps names).children.map (·.1)).Nodup := by
  induction names using List.reverseRecOn with
  | nil => exact List.nodup_nil
  | append_singleton names l ih =>
    rw [ofSteps, List.foldl_append]
    show ((insert l (ofSteps names)).children.map (·.1)).Nodup
    cases l with
    | nil => exact ih
    | cons first rest =>
      rw [children_insert, map_fst_alter]
      split
      · exact ih
      · rename_i hnew
        rw [List.nodup_append]
        refine ⟨ih, List.nodup_singleton _, ?_⟩
        intro n hn k hk heq
        rw [List.mem_singleton] at hk
        exact hnew (hk ▸ heq ▸ hn)

theorem lookup_of_mem {name : String} {t : NameTree} {groups : List (String × NameTree)}
    (hnodup : (groups.map (·.1)).Nodup) (h : (name, t) ∈ groups) : lookup name groups = some t := by
  induction groups with
  | nil => cases h
  | cons group groups ih =>
    rw [List.map_cons, List.nodup_cons] at hnodup
    rcases List.mem_cons.mp h with rfl | h
    · rw [lookup, if_pos rfl]
    · have hne : group.1 ≠ name := fun heq => hnodup.1 (heq ▸ List.mem_map_of_mem h)
      rw [lookup, if_neg hne]
      exact ih hnodup.2 h

/-- A group is that of its segment in some name. -/
theorem of_mem_ofSteps {name : String} {t : NameTree} {names : List (List String)}
    (h : (name, t) ∈ (ofSteps names).children) :
    rests name names ≠ [] ∧ t = ofSteps (rests name names) := by
  have hlookup := lookup_of_mem (nodup_ofSteps names) h
  rw [lookup_ofSteps] at hlookup
  split at hlookup
  · cases hlookup
  · rename_i hne
    exact ⟨hne, (Option.some.inj hlookup).symm⟩

/-- There are no groups exactly if no name has a segment. -/
theorem children_ofSteps_eq_nil {names : List (List String)} :
    (ofSteps names).children = [] ↔ ∀ l ∈ names, l = [] := by
  constructor
  · intro h l hl
    by_contra hne
    obtain ⟨first, rest, rfl⟩ := List.exists_cons_of_ne_nil hne
    have hlookup := lookup_ofSteps first names
    rw [h, if_neg (List.ne_nil_of_mem (mem_rests.mpr hl))] at hlookup
    cases hlookup
  · intro h
    rw [List.eq_nil_iff_forall_not_mem]
    rintro ⟨name, group⟩ hmem
    obtain ⟨rest, others, hrests⟩ := List.exists_cons_of_ne_nil (of_mem_ofSteps hmem).1
    have hname := h _ (mem_rests.mp (hrests ▸ List.mem_cons_self))
    cases hname

end NameTree

/-! ### Bindings -/

namespace Binding

variable {s : Schema} {t : s.Ty} {base name : String} {names : List (List String)}

theorem ofGroups_cons_ok {group : NameTree} {groups : List (String × NameTree)}
    {bindings : List Binding} (h : ofGroups s t base ((name, group) :: groups) = .ok bindings) :
    ∃ first others, ofGroup s t base name group = .ok first ∧
      ofGroups s t base groups = .ok others ∧ bindings = first :: others := by
  rw [ofGroups] at h
  cases hfirst : ofGroup s t base name group with
  | error e => rw [hfirst] at h; cases h
  | ok first =>
    rw [hfirst] at h
    cases hothers : ofGroups s t base groups with
    | error e => simp only [hothers] at h; cases h
    | ok others =>
      simp only [hothers] at h
      cases h
      exact ⟨first, others, rfl, rfl, rfl⟩

theorem ofGroups_ok_of_forall {groups : List (String × NameTree)}
    (h : ∀ name group, (name, group) ∈ groups → ∃ b, ofGroup s t base name group = .ok b) :
    ∃ bindings, ofGroups s t base groups = .ok bindings := by
  induction groups with
  | nil => exact ⟨[], rfl⟩
  | cons group groups ih =>
    obtain ⟨first, hfirst⟩ := h _ _ List.mem_cons_self
    obtain ⟨others, hothers⟩ := ih fun name group hg => h name group (List.mem_cons_of_mem _ hg)
    exact ⟨first :: others, by rw [ofGroups, hfirst, hothers]; rfl⟩

theorem ofGroup_scalar {kind : Kind} {nullable : Bool} (hname : name ≠ "")
    (hmember : (s.decl t).member? name = some (.scalar kind nullable)) (group : NameTree) :
    ofGroup s t base name group = .ok (.copy name (qualify base name)) := by
  cases group
  rw [ofGroup, if_neg (by simpa [String.isEmpty_iff] using hname), hmember]
  rfl

theorem ofGroup_object {target : s.Ty} {nullable : Bool} {group : NameTree} (hname : name ≠ "")
    (hmember : (s.decl t).member? name = some (.object target nullable))
    (hgroup : group.children ≠ []) :
    ofGroup s t base name group =
      (ofGroups s target (qualify base name) group.children).map
        (.nested name (qualify base name) (s.nameOf target)) := by
  obtain ⟨children⟩ := group
  obtain ⟨child, children, rfl⟩ := List.exists_cons_of_ne_nil hgroup
  rw [ofGroup, if_neg (by simpa [String.isEmpty_iff] using hname), hmember]
  rfl

/-- The binding of a group copies a scalar member, or one at which all names of the group end, and is
built from the groups below an object otherwise. -/
theorem ofGroup_ok {group : NameTree} {b : Binding} (h : ofGroup s t base name group = .ok b) :
    ∃ type, (s.decl t).member? name = some type ∧
      ((type.isScalar ∨ group.children = []) ∧ b = .copy name (qualify base name) ∨
        ∃ target inner, type.target? = some target ∧ group.children ≠ [] ∧
          ofGroups s target (qualify base name) group.children = .ok inner ∧
          b = .nested name (qualify base name) (s.nameOf target) inner) := by
  obtain ⟨children⟩ := group
  rw [ofGroup] at h
  split at h
  · cases h
  · simp only at h
    split at h
    · cases h
    · rename_i kind nullable hmember
      cases h
      exact ⟨_, hmember, .inl ⟨.inl rfl, rfl⟩⟩
    · rename_i hmember
      cases h
      exact ⟨_, hmember, .inl ⟨.inr rfl, rfl⟩⟩
    · cases h
    · rename_i target nullable child children hmember
      cases hinner : ofGroups s target (qualify base name) (child :: children) with
      | error e => rw [qualify] at hinner; rw [hinner] at h; cases h
      | ok inner =>
        rw [qualify] at hinner
        rw [hinner] at h
        cases h
        exact ⟨_, hmember, .inr ⟨target, inner, rfl, List.cons_ne_nil _ _, hinner, rfl⟩⟩

/-- Below an object the binding is built from the groups of its members. -/
theorem ofGroup_object_ok {target : s.Ty} {nullable : Bool} {group : NameTree} {b : Binding}
    (hmember : (s.decl t).member? name = some (.object target nullable))
    (hgroup : group.children ≠ []) (h : ofGroup s t base name group = .ok b) :
    ∃ inner, ofGroups s target (qualify base name) group.children = .ok inner ∧
      b = .nested name (qualify base name) (s.nameOf target) inner := by
  obtain ⟨type, hmember', hcases⟩ := ofGroup_ok h
  cases hmember.symm.trans hmember'
  rcases hcases with ⟨hcopied, -⟩ | ⟨target', inner, htarget, -, hinner, hb⟩
  · exact (hcopied.elim Bool.false_ne_true hgroup).elim
  · cases htarget
    exact ⟨inner, hinner, hb⟩

theorem member_ofGroup {group : NameTree} {b : Binding} (h : ofGroup s t base name group = .ok b) :
    b.member = name := by
  obtain ⟨type, -, ⟨-, rfl⟩ | ⟨target, inner, -, -, -, rfl⟩⟩ := ofGroup_ok h <;> rfl

/-- Names that lead on below an object have groups. -/
theorem children_ne_nil {target : s.Ty} (hne : names ≠ []) (h : ∀ l ∈ names, s.Leads target l) :
    (NameTree.ofSteps names).children ≠ [] := by
  obtain ⟨l, hl⟩ := List.exists_mem_of_ne_nil names hne
  exact fun hempty => (h l hl).ne_nil (NameTree.children_ofSteps_eq_nil.mp hempty l hl)

/-- Names below an object lead on from the type of the object. -/
theorem rests_lead {target : s.Ty} {nullable : Bool} (h : ∀ l ∈ names, s.Leads t l)
    (hmember : (s.decl t).member? name = some (.object target nullable)) :
    ∀ l ∈ NameTree.rests name names, s.Leads target l := by
  intro l hl
  cases h _ (NameTree.mem_rests.mp hl) with
  | scalar hscalar => rw [hmember] at hscalar; cases hscalar
  | object hobject hrest => rw [hmember] at hobject; cases hobject; exact hrest

/-- No names go on below a scalar member. -/
theorem rests_scalar {kind : Kind} {nullable : Bool} (h : ∀ l ∈ names, s.Leads t l)
    (hmember : (s.decl t).member? name = some (.scalar kind nullable)) (hnot : [name] ∉ names) :
    NameTree.rests name names = [] := by
  rw [List.eq_nil_iff_forall_not_mem]
  intro rest hrest
  have hmem := NameTree.mem_rests.mp hrest
  cases h _ hmem with
  | scalar _ => exact hnot hmem
  | object hother _ => rw [hmember] at hother; cases hother

/-- Names that lead to scalar members have bindings. -/
theorem ofGroups_ok (hs : s.Proper) (h : ∀ l ∈ names, s.Leads t l) :
    ∃ bindings, ofGroups s t base (NameTree.ofSteps names).children = .ok bindings := by
  obtain ⟨bound, hbound⟩ : ∃ bound, ∀ l ∈ names, l.length ≤ bound :=
    ⟨names.flatten.length, fun l hl => (List.sublist_flatten_of_mem hl).length_le⟩
  induction bound generalizing t base names with
  | zero =>
    have hnames : names = [] := by
      rw [List.eq_nil_iff_forall_not_mem]
      intro l hl
      apply (h l hl).ne_nil
      exact List.length_eq_zero_iff.mp (Nat.le_zero.mp (hbound l hl))
    subst hnames
    exact ⟨[], rfl⟩
  | succ bound ih =>
    apply ofGroups_ok_of_forall
    intro name group hmem
    obtain ⟨hne, rfl⟩ := NameTree.of_mem_ofSteps hmem
    obtain ⟨rest, others, hrests⟩ := List.exists_cons_of_ne_nil hne
    have hrest : name :: rest ∈ names := NameTree.mem_rests.mp (hrests ▸ List.mem_cons_self)
    cases h _ hrest with
    | scalar hmember => exact ⟨_, ofGroup_scalar (hs.name_ne_empty hmember) hmember _⟩
    | @object _ target _ nullable _ hmember _ =>
      have hleads := rests_lead h hmember
      have hshorter : ∀ l ∈ NameTree.rests name names, l.length ≤ bound := by
        intro l hl
        have hlength := hbound _ (NameTree.mem_rests.mp hl)
        rw [List.length_cons] at hlength
        omega
      obtain ⟨bindings, hbindings⟩ := ih (t := target) hleads hshorter
      refine ⟨.nested name (qualify base name) (s.nameOf target) bindings, ?_⟩
      rw [ofGroup_object (hs.name_ne_empty hmember) hmember (children_ne_nil hne hleads), hbindings]
      rfl

/-! ### Values of bindings -/

variable {groups : List (String × NameTree)} {bindings : List Binding}

theorem names_values (h : ofGroups s t base groups = .ok bindings) (r : Record) :
    (values r bindings).map (·.1) = groups.map (·.1) := by
  induction groups generalizing bindings with
  | nil => cases h; rfl
  | cons group groups ih =>
    obtain ⟨first, others, hfirst, hothers, rfl⟩ := ofGroups_cons_ok h
    rw [values, List.map_cons, List.map_cons, ih hothers, member_ofGroup hfirst]

/-- A name without a group has no value. -/
theorem get?_values_none (h : ofGroups s t base groups = .ok bindings) (r : Record)
    (hname : NameTree.lookup name groups = none) : Record.get? (values r bindings) name = none := by
  induction groups generalizing bindings with
  | nil => cases h; rfl
  | cons group groups ih =>
    obtain ⟨first, others, hfirst, hothers, rfl⟩ := ofGroups_cons_ok h
    rw [NameTree.lookup] at hname
    split at hname
    · cases hname
    · rename_i hne
      rw [values, Record.get?, member_ofGroup hfirst, if_neg hne]
      exact ih hothers hname

/-- A name with a group has a binding, which builds its value. -/
theorem exists_mem_of_lookup {group : NameTree} (h : ofGroups s t base groups = .ok bindings)
    (hname : NameTree.lookup name groups = some group) :
    ∃ b ∈ bindings, ofGroup s t base name group = .ok b ∧
      ∀ r, Record.get? (values r bindings) name = some (b.value r) := by
  induction groups generalizing bindings with
  | nil => cases hname
  | cons first groups ih =>
    obtain ⟨b, others, hb, hothers, rfl⟩ := ofGroups_cons_ok h
    rw [NameTree.lookup] at hname
    split at hname
    · rename_i hsame
      cases hname
      refine ⟨b, List.mem_cons_self, hsame ▸ hb, fun r => ?_⟩
      rw [values, Record.get?, member_ofGroup hb, if_pos hsame]
    · rename_i hne
      obtain ⟨b', hmem, hb', hvalue⟩ := ih hothers hname
      refine ⟨b', List.mem_cons_of_mem _ hmem, hb', fun r => ?_⟩
      rw [values, Record.get?, member_ofGroup hb, if_neg hne, hvalue r]

/-- A name with a group has the value that the binding of the group builds. -/
theorem get?_values_some {group : NameTree} (h : ofGroups s t base groups = .ok bindings)
    (r : Record) (hname : NameTree.lookup name groups = some group) :
    ∃ b, ofGroup s t base name group = .ok b ∧
      Record.get? (values r bindings) name = some (b.value r) := by
  obtain ⟨b, -, hb, hvalue⟩ := exists_mem_of_lookup h hname
  exact ⟨b, hb, hvalue r⟩

end Binding

/-- The bindings of a projection are those of the groups of its names. -/
theorem Projection.ofNames?_eq (s : Schema) (root : s.Ty) (names : List String) :
    ofNames? s root names =
      (Binding.ofGroups s root "" (NameTree.ofSteps (names.map segments)).children).map
        (⟨s.nameOf root, ·⟩) := by
  rw [ofNames?, NameTree.ofNames_eq_ofSteps]
  cases NameTree.ofSteps (names.map segments)
  rfl

/-- Paths that lead to scalar members have a projection with bindings of their names. -/
theorem Projection.exists_ofPaths? {s : Schema} {root : s.Ty} {ps : List Path} (hs : s.Proper)
    (h : ∀ p ∈ ps, s.Leads root (segments p.fullName)) :
    ∃ bindings, ofPaths? s root ps = .ok ⟨s.nameOf root, bindings⟩ ∧
      Binding.ofGroups s root ""
        (NameTree.ofSteps (ps.map fun p => segments p.fullName)).children = .ok bindings := by
  have hleads : ∀ l ∈ ps.map fun p => segments p.fullName, s.Leads root l := by
    intro l hl
    obtain ⟨p, hp, rfl⟩ := List.mem_map.mp hl
    exact h p hp
  obtain ⟨bindings, hbindings⟩ : ∃ bindings, Binding.ofGroups s root ""
      (NameTree.ofSteps (ps.map fun p => segments p.fullName)).children = .ok bindings :=
    Binding.ofGroups_ok hs hleads
  refine ⟨bindings, ?_, hbindings⟩
  rw [ofPaths?, ofNames?_eq, List.map_map]
  exact congrArg (Except.map _) hbindings

end EntityQuery
