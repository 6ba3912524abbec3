import EntityQuery.Proofs.Path.Iteration
import EntityQuery.Proofs.Path.Leading

/-!
# Discovered paths are resolved paths

A dotted name is resolved segment by segment through object members. It ends at a scalar member, or
at the first segment from which it does not go on. On schemas with proper names, discovery finds
exactly the names that resolve without entering a type twice, and finds the same paths for them.

* `Schema.through?`, `Schema.entered` — the type to which names lead, and the types on the way to it.
* `Schema.Stops` — why a walk through object members ends without a scalar.
* `Schema.resolveFrom_through`, `Schema.exists_end` — how resolution goes, and where it ends.
* `Schema.resolve_eq_ok_iff`, `Schema.resolve_eq_error_iff` — what a name resolves to.
* `Schema.LeadsTo` — the path that names lead to; `Schema.leadsTo_of_mem_discover` and
  `Schema.mem_discover_of_leadsTo` compare it with discovery.
* `Walk.toList_resolve` — a walk and resolution agree.
-/

namespace EntityQuery

/-- A name has a segment more than it has dots. -/
theorem length_segments (name : String) : (segments name).length = name.toList.count '.' + 1 := by
  have hpieces (cs : List Char) : (pieces '.' cs).length = cs.count '.' + 1 := by
    induction cs with
    | nil => rfl
    | cons c cs ih =>
      simp only [pieces, List.length_cons, cut] at ih ⊢
      by_cases h : c = '.'
      · simp only [h, if_true, List.length_cons, List.count_cons_self, ih]
      · simp only [h, if_false, ih, List.count_cons_of_ne h]
  rw [segments, List.length_map, hpieces]

namespace Schema

variable {s : Schema}

/-! ### Through object members -/

/-- The type of the object that a member of a type is. -/
def enter? (s : Schema) (t : s.Ty) (name : String) : Option s.Ty :=
  ((s.decl t).member? name).bind TypeRef.target?

/-- The type to which names lead from a type through object members. -/
def through? (s : Schema) : s.Ty → List String → Option s.Ty
  | t, [] => some t
  | t, name :: names => (s.enter? t name).bind (s.through? · names)

/-- The types that names enter from a type through object members, one after the other. -/
def entered (s : Schema) : s.Ty → List String → List s.Ty
  | _, [] => []
  | t, name :: names => (s.enter? t name).elim [] fun u => u :: s.entered u names

theorem enter?_eq_some {t u : s.Ty} {name : String} :
    s.enter? t name = some u ↔ ∃ nullable, (s.decl t).member? name = some (.object u nullable) := by
  rw [enter?, Option.bind_eq_some_iff]
  constructor
  · rintro ⟨type, hmember, htarget⟩
    cases type with
    | object target nullable =>
      cases htarget
      exact ⟨nullable, hmember⟩
    | scalar | collection => cases htarget
  · rintro ⟨nullable, hmember⟩
    exact ⟨_, hmember, rfl⟩

theorem through?_cons {t u : s.Ty} {name : String} {names : List String} :
    s.through? t (name :: names) = some u ↔
      ∃ v, s.enter? t name = some v ∧ s.through? v names = some u := by
  rw [through?, Option.bind_eq_some_iff]

/-- A walk through object members ends at a segment for this reason: the type has no such member,
the member is no object although more names follow, or it is the last one and no scalar. `walked` are
the names before the segment, and `full` is the whole dotted name. -/
inductive Stops (s : Schema) (full : String) (t : s.Ty) (walked : List String) (segment : String) :
    List String → PathError → Prop where
  | unknown {after : List String} :
      (s.decl t).member? segment = none →
      Stops s full t walked segment after (.unknownMember (s.nameOf t) segment)
  | notAnObject {type : TypeRef s.size} {next : String} {after : List String} :
      (s.decl t).member? segment = some type → type.target? = none →
      Stops s full t walked segment (next :: after)
        (.notAnObject (dotted (walked ++ [segment])) (s.typeName type))
  | notScalar {type : TypeRef s.size} :
      (s.decl t).member? segment = some type → type.isScalar = false →
      Stops s full t walked segment [] (.notScalar full (s.typeName type))

/-! ### Resolution -/

variable {full segment : String} {t u : s.Ty} {walked after : List String}

/-- Resolution goes through object members. -/
theorem resolveFrom_through {before : List String} (h : s.through? t before = some u)
    {name : String} {rest : List String} (hnames : name :: rest = before ++ segment :: after) :
    s.resolveFrom full t walked name rest =
      s.resolveFrom full u (walked ++ before) segment after := by
  induction before generalizing t walked name rest with
  | nil =>
    cases h
    cases hnames
    rw [List.append_nil]
  | cons first before ih =>
    obtain ⟨v, henter, hthrough⟩ := through?_cons.mp h
    obtain ⟨nullable, hmember⟩ := enter?_eq_some.mp henter
    rw [List.cons_append, List.cons.injEq] at hnames
    obtain ⟨rfl, rfl⟩ := hnames
    obtain ⟨next, rest, hrest⟩ : ∃ next rest, before ++ segment :: after = next :: rest :=
      List.exists_cons_of_ne_nil (by simp)
    have hstep : s.resolveFrom full t walked name (next :: rest) =
        s.resolveFrom full v (walked ++ [name]) next rest := by
      rw [resolveFrom, hmember]
    rw [hrest, hstep, ih hthrough hrest.symm, List.append_assoc, List.singleton_append]

theorem resolveFrom_scalar {kind : Kind} {nullable : Bool}
    (h : (s.decl t).member? segment = some (.scalar kind nullable)) :
    s.resolveFrom full t walked segment [] =
      .ok ⟨full, kind, nullable, s.nameOf t, walked.length⟩ := by
  rw [resolveFrom, h]

/-- Where the walk stops, resolution gives the reason. -/
theorem Stops.resolveFrom_eq {err : PathError} (h : s.Stops full t walked segment after err) :
    s.resolveFrom full t walked segment after = .error err := by
  cases h with
  | unknown hmember => rw [resolveFrom, hmember]
  | @notAnObject type next after hmember htarget =>
    rw [resolveFrom, hmember]
    cases type with
    | object => cases htarget
    | scalar | collection => rfl
  | @notScalar type hmember hscalar =>
    rw [resolveFrom, hmember]
    cases type with
    | scalar => cases hscalar
    | object | collection => rfl

/-- Every walk through object members comes to an end: at a scalar with the last name, or where it
stops. -/
theorem exists_end (full : String) (t : s.Ty) (walked : List String) (name : String)
    (rest : List String) :
    ∃ before segment after u, name :: rest = before ++ segment :: after ∧
      s.through? t before = some u ∧
      ((after = [] ∧ ∃ kind nullable,
          (s.decl u).member? segment = some (.scalar kind nullable)) ∨
        ∃ err, s.Stops full u (walked ++ before) segment after err) := by
  induction rest generalizing t walked name with
  | nil =>
    refine ⟨[], name, [], t, rfl, rfl, ?_⟩
    cases hmember : (s.decl t).member? name with
    | none => exact Or.inr ⟨_, .unknown hmember⟩
    | some type =>
      cases type with
      | scalar kind nullable => exact Or.inl ⟨rfl, kind, nullable, rfl⟩
      | object | collection => exact Or.inr ⟨_, .notScalar hmember rfl⟩
  | cons next rest ih =>
    cases hmember : (s.decl t).member? name with
    | none => exact ⟨[], name, next :: rest, t, rfl, rfl, Or.inr ⟨_, .unknown hmember⟩⟩
    | some type =>
      cases type with
      | scalar | collection =>
        exact ⟨[], name, next :: rest, t, rfl, rfl, Or.inr ⟨_, .notAnObject hmember rfl⟩⟩
      | object target nullable =>
        obtain ⟨before, segment, after, u, hnames, hthrough, hend⟩ := ih target (walked ++ [name]) next
        have henter : s.enter? t name = some target := enter?_eq_some.mpr ⟨nullable, hmember⟩
        rw [List.append_assoc] at hend
        exact ⟨name :: before, segment, after, u, congrArg (name :: ·) hnames,
          through?_cons.mpr ⟨target, henter, hthrough⟩, hend⟩

theorem resolve_of_ne_empty {root : s.Ty} {name first : String} {rest : List String}
    (hname : name ≠ "") (hsegments : segments name = first :: rest) :
    s.resolve root name = s.resolveFrom name root [] first rest := by
  unfold resolve
  split
  · exact absurd rfl hname
  · rename_i hnone
    rw [hsegments] at hnone
    cases hnone
  · rename_i hsome
    rw [hsegments] at hsome
    cases hsome
    rfl

/-- The path that names lead to from a type at a depth: a scalar member of the type that is reached
through object members. -/
def LeadsTo (s : Schema) (depth : Nat) (t : s.Ty) (names : List String) (p : Path) : Prop :=
  ∃ before last u, names = before ++ [last] ∧ s.through? t before = some u ∧
    (s.decl u).member? last = some (.scalar p.kind p.nullable) ∧ p.owner = s.nameOf u ∧
    p.depth = depth + before.length

/-- A name resolves to the path that its segments lead to. -/
theorem resolve_eq_ok_iff {root : s.Ty} {name : String} (hname : name ≠ "") {p : Path} :
    s.resolve root name = .ok p ↔ p.fullName = name ∧ s.LeadsTo 0 root (segments name) p := by
  obtain ⟨first, rest, hsegments⟩ := List.exists_cons_of_ne_nil (segments_ne_nil name)
  rw [resolve_of_ne_empty hname hsegments, hsegments]
  constructor
  · intro h
    obtain ⟨before, segment, after, u, hnames, hthrough, hend⟩ :=
      exists_end name root [] first rest
    obtain ⟨rfl, kind, nullable, hmember⟩ | ⟨err, hstops⟩ := hend
    · rw [resolveFrom_through hthrough hnames, resolveFrom_scalar hmember, Except.ok.injEq] at h
      subst h
      exact ⟨rfl, before, segment, u, hnames, hthrough, hmember, rfl, (Nat.zero_add _).symm⟩
    · rw [resolveFrom_through hthrough hnames, hstops.resolveFrom_eq] at h
      cases h
  · rintro ⟨hfull, before, last, u, hnames, hthrough, hmember, howner, hdepth⟩
    rw [resolveFrom_through hthrough hnames, resolveFrom_scalar hmember, ← hfull, ← howner,
      List.nil_append, ← Nat.zero_add before.length, ← hdepth]

/-- A name fails to resolve for the reason for which the walk through object members stops. -/
theorem resolve_eq_error_iff {root : s.Ty} {name : String} (hname : name ≠ "") {err : PathError} :
    s.resolve root name = .error err ↔
      ∃ before segment after u, segments name = before ++ segment :: after ∧
        s.through? root before = some u ∧ s.Stops name u before segment after err := by
  obtain ⟨first, rest, hsegments⟩ := List.exists_cons_of_ne_nil (segments_ne_nil name)
  rw [resolve_of_ne_empty hname hsegments, hsegments]
  constructor
  · intro h
    obtain ⟨before, segment, after, u, hnames, hthrough, hend⟩ :=
      exists_end name root [] first rest
    obtain ⟨rfl, kind, nullable, hmember⟩ | ⟨err', hstops⟩ := hend
    · rw [resolveFrom_through hthrough hnames, resolveFrom_scalar hmember] at h
      cases h
    · rw [resolveFrom_through hthrough hnames, hstops.resolveFrom_eq, Except.error.injEq] at h
      subst h
      exact ⟨before, segment, after, u, hnames, hthrough, hstops⟩
  · rintro ⟨before, segment, after, u, hnames, hthrough, hstops⟩
    rw [resolveFrom_through hthrough hnames]
    exact hstops.resolveFrom_eq

/-- Only the empty name is refused as such. -/
theorem resolve_eq_empty_iff {root : s.Ty} {name : String} :
    s.resolve root name = .error .empty ↔ name = "" := by
  by_cases hname : name = ""
  · subst hname
    exact iff_of_true rfl rfl
  · refine iff_of_false (fun h => ?_) hname
    obtain ⟨before, segment, after, u, -, -, hstops⟩ := (resolve_eq_error_iff hname).mp h
    cases hstops

/-! ### Discovery -/

variable {limit : Option Nat} {depth : Nat} {names : List String} {p : Path}

theorem LeadsTo.enter {name : String} (henter : s.enter? t name = some u)
    (h : s.LeadsTo (depth + 1) u names p) : s.LeadsTo depth t (name :: names) p := by
  obtain ⟨before, last, v, rfl, hthrough, hmember, howner, hdepth⟩ := h
  refine ⟨name :: before, last, v, rfl, through?_cons.mpr ⟨u, henter, hthrough⟩, hmember, howner, ?_⟩
  rw [hdepth, List.length_cons]
  omega

/-- Discovery goes through the members one by one. -/
theorem mem_discover {way : List String} {owner base : String} {members : List (Member s.size)} :
    p ∈ s.discover limit way owner base depth members ↔
      ∃ member ∈ members, p ∈ s.discover limit way owner base depth [member] := by
  induction members with
  | nil => simp [discover]
  | cons member members ih =>
    have hcons : s.discover limit way owner base depth (member :: members) =
        s.discover limit way owner base depth [member] ++
          s.discover limit way owner base depth members := by
      obtain ⟨name, type⟩ := member
      cases type <;> simp [discover]
    simp only [hcons, List.mem_append, ih, List.mem_cons, exists_eq_or_imp]

/-- A discovered path is the one that its names lead to. -/
theorem leadsTo_of_mem_discover (hs : s.Proper) {way : List String} {owner base : String}
    {members : List (Member s.size)} (hmembers : members ⊆ (s.decl t).members)
    (howner : owner = s.nameOf t) (h : p ∈ s.discover limit way owner base depth members) :
    ∃ names, segments p.fullName = baseSteps base ++ names ∧ s.LeadsTo depth t names p := by
  induction way, owner, base, depth, members using discover.induct s limit generalizing t with
  | case1 way owner base depth =>
    rw [discover] at h
    cases h
  | case2 way owner base depth name kind nullable members ih =>
    rw [discover] at h
    have hself : (⟨name, .scalar kind nullable⟩ : Member s.size) ∈ (s.decl t).members :=
      hmembers List.mem_cons_self
    rcases List.mem_cons.mp h with rfl | h
    · exact ⟨[name], segments_qualify (hs.named t _ hself).2, [], name, t, rfl, rfl,
        member?_of_mem (hs.distinct t) hself, howner, rfl⟩
    · exact ih (fun _ hm => hmembers (List.mem_cons_of_mem _ hm)) howner h
  | case3 way owner base depth name element members ih =>
    rw [discover] at h
    exact ih (fun _ hm => hmembers (List.mem_cons_of_mem _ hm)) howner h
  | case4 way owner base depth name target nullable members ihinner ih =>
    rw [discover] at h
    have hself : (⟨name, .object target nullable⟩ : Member s.size) ∈ (s.decl t).members :=
      hmembers List.mem_cons_self
    rcases List.mem_append.mp h with h | h
    · split at h
      · rename_i henters
        obtain ⟨names, hsegments, hleads⟩ := ihinner henters (List.Subset.refl _) rfl h
        obtain ⟨hne, hdot⟩ := hs.named t _ hself
        have henter : s.enter? t name = some target :=
          enter?_eq_some.mpr ⟨nullable, member?_of_mem (hs.distinct t) hself⟩
        rw [baseSteps_qualify hne hdot, List.append_assoc, List.singleton_append] at hsegments
        exact ⟨name :: names, hsegments, hleads.enter henter⟩
      · cases h
    · exact ih (fun _ hm => hmembers (List.mem_cons_of_mem _ hm)) howner h

/-- Names that lead to a path are not those of the empty name. -/
theorem LeadsTo.ne_empty (hs : s.Proper) (h : s.LeadsTo depth t names p)
    (hsegments : segments p.fullName = names) : p.fullName ≠ "" := by
  intro hempty
  obtain ⟨before, last, u, rfl, -, hmember, -⟩ := h
  have hone : before ++ [last] = [""] := by
    rw [← hsegments, hempty]
    rfl
  have hlast : last ∈ [""] := hone ▸ List.mem_append_right before List.mem_cons_self
  obtain rfl := List.mem_singleton.mp hlast
  exact hs.name_ne_empty hmember rfl

/-- The path that names lead to is discovered, if no type on the way to it is entered twice and it is
no deeper than the limit. -/
theorem mem_discover_of_leadsTo (hs : s.Proper) {way : List String} {base : String}
    (hleads : s.LeadsTo depth t names p) (hsegments : segments p.fullName = baseSteps base ++ names)
    (hway : (way ++ (s.entered t names.dropLast).map s.identityOf).Nodup)
    (hlimit : ∀ max, limit = some max → p.depth ≤ max) :
    p ∈ s.discover limit way (s.nameOf t) base depth (s.decl t).members := by
  obtain ⟨before, last, u, rfl, hthrough, hmember, howner, hdepth⟩ := hleads
  rw [List.dropLast_concat] at hway
  induction before generalizing t way base depth with
  | nil =>
    cases hthrough
    have hself := mem_of_member? hmember
    have hname : p.fullName = qualify base last := by
      apply segments_inj
      rw [hsegments, segments_qualify (hs.named u _ hself).2, List.nil_append]
    refine mem_discover.mpr ⟨_, hself, ?_⟩
    rw [discover, ← hname, ← howner, show depth = p.depth from hdepth.symm]
    exact List.mem_cons_self
  | cons name before ih =>
    obtain ⟨v, henter, hthrough⟩ := through?_cons.mp hthrough
    obtain ⟨nullable, hobject⟩ := enter?_eq_some.mp henter
    have hself := mem_of_member? hobject
    obtain ⟨hne, hdot⟩ := hs.named t _ hself
    rw [entered, henter, Option.elim_some, List.map_cons, List.append_cons] at hway
    rw [List.length_cons] at hdepth
    have henters : s.enters limit way (depth + 1) v = true := by
      rw [enters, Bool.and_eq_true, Option.all_eq_true, Bool.not_eq_true', ← Bool.not_eq_true,
        List.contains_iff_mem]
      constructor
      · intro max hmax
        have hle := hlimit max hmax
        exact decide_eq_true (by omega)
      · have hnew := List.nodup_append.mp (List.nodup_append.mp hway).1
        exact fun hmem => hnew.2.2 _ hmem _ List.mem_cons_self rfl
    refine mem_discover.mpr ⟨_, hself, ?_⟩
    rw [discover, if_pos henters]
    refine List.mem_append_left _ (ih ?_ hway hthrough (by omega))
    rw [hsegments, baseSteps_qualify hne hdot, List.append_assoc, List.singleton_append,
      List.cons_append]

end Schema

/-! ### Walks -/

/-- On a schema with proper names, a walk and resolution agree. Every path that a walk gives is the
one to which its name resolves, as deep as the name has dots. The path of a name that resolves is
given exactly once, if no type is entered twice on the way from the root to it and it is no deeper
than the limit. Only the empty name is refused as such, and every other name that does not resolve is
refused at the first segment from which the walk through object members does not go on. -/
theorem Walk.toList_resolve {s : Schema} (hs : s.Proper) (root : s.Ty) (limit : Option Nat) :
    let found := (Walk.start s root limit).toList
    (∀ p ∈ found, s.resolve root p.fullName = .ok p ∧ p.depth = p.fullName.toList.count '.') ∧
      (∀ name p, s.resolve root name = .ok p →
        ((root :: s.entered root (segments name).dropLast).map s.identityOf).Nodup →
        (∀ max, limit = some max → p.depth ≤ max) →
        p ∈ found ∧ (found.map (·.fullName)).count name = 1) ∧
      (∀ name, s.resolve root name = .error .empty ↔ name = "") ∧
      ∀ name err, name ≠ "" → (s.resolve root name = .error err ↔
        ∃ before segment after u, segments name = before ++ segment :: after ∧
          s.through? root before = some u ∧ s.Stops name u before segment after err) := by
  intro found
  have hfound : found = s.paths root limit := Walk.toList_start root limit
  have hroot : baseSteps "" = [] := rfl
  rw [hfound]
  refine ⟨fun p hp => ?_, fun name p hresolve hdistinct hlimit => ?_,
    fun name => Schema.resolve_eq_empty_iff, fun name err hname => Schema.resolve_eq_error_iff hname⟩
  · obtain ⟨names, hsegments, hleads⟩ :=
      Schema.leadsTo_of_mem_discover hs (List.Subset.refl _) rfl hp
    rw [hroot, List.nil_append] at hsegments
    have hname := hleads.ne_empty hs hsegments
    refine ⟨(Schema.resolve_eq_ok_iff hname).mpr ⟨rfl, hsegments ▸ hleads⟩, ?_⟩
    have hlength := length_segments p.fullName
    obtain ⟨before, last, u, rfl, -, -, -, hdepth⟩ := hleads
    rw [hsegments, List.length_append, List.length_singleton] at hlength
    omega
  · have hname : name ≠ "" := by
      intro hempty
      rw [Schema.resolve_eq_empty_iff.mpr hempty] at hresolve
      cases hresolve
    obtain ⟨rfl, hleads⟩ := (Schema.resolve_eq_ok_iff hname).mp hresolve
    have hp : p ∈ s.paths root limit := Schema.mem_discover_of_leadsTo hs hleads rfl hdistinct hlimit
    exact ⟨hp, List.count_eq_one_of_mem (Schema.nodup_paths hs root) (List.mem_map_of_mem hp)⟩

/-- People have a name and perhaps a company, which has a title and an owner. The title is found and
resolved, and the name of a person has no further member. -/
theorem Walk.toList_resolve_company :
    let person : TypeDecl 2 := ⟨"Person", "Person",
      [⟨"name", .scalar .text false⟩, ⟨"company", .object 1 true⟩]⟩
    let company : TypeDecl 2 := ⟨"Company", "Company",
      [⟨"title", .scalar .text true⟩, ⟨"owner", .object 0 false⟩]⟩
    let s : Schema := ⟨2, #v[person, company]⟩
    let root : s.Ty := (0 : Fin 2)
    let title : Path := ⟨"company.title", .text, true, "Company", 1⟩
    let found := (Walk.start s root (some 1)).toList
    s.Proper ∧
      (∀ p ∈ found, s.resolve root p.fullName = .ok p ∧ p.depth = p.fullName.toList.count '.') ∧
      s.resolve root "company.title" = .ok title ∧
      title ∈ found ∧ (found.map (·.fullName)).count "company.title" = 1 ∧
      s.resolve root "name.first" = .error (.notAnObject "name" "String") ∧
      ∃ before segment after u, segments "name.first" = before ++ segment :: after ∧
        s.through? root before = some u ∧
        s.Stops "name.first" u before segment after (.notAnObject "name" "String") := by
  intro person company s root title found
  have hs : s.Proper := ⟨by decide, by decide⟩
  obtain ⟨hfound, honce, -, hrefused⟩ := Walk.toList_resolve hs root (some 1)
  have hresolve : s.resolve root "company.title" = .ok title := by rfl
  have hrefuse : s.resolve root "name.first" = .error (.notAnObject "name" "String") := by rfl
  obtain ⟨htitle, hcount⟩ := honce _ _ hresolve (by decide) (by simp [title])
  exact ⟨hs, hfound, hresolve, htitle, hcount, hrefuse, (hrefused _ _ (by decide)).mp hrefuse⟩

end EntityQuery
