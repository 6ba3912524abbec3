import EntityQuery.Expr.Basic
import EntityQuery.Proofs.Projection.Grouping

/-!
# Projected records and whole records

A projected record has the values of the whole record at the projected paths, and nothing at other
paths. This holds of every record, whether it is one of the type or not: what is missing, or is no
object where the type has one, is null in both. So an expression of projected paths does not tell the
two records apart.

* `Expr.properties`, `Expr.eval_congr` — the value of an expression depends on its properties only.
* `Binding.at?_values` — the values of bindings at paths.
* `Projection.eval_apply` — the projection of names that resolve.
-/

namespace EntityQuery

/-! ### Expressions and their properties -/

namespace Expr

mutual

/-- The properties in an expression. -/
def properties : Expr → List Path
  | .property p => [p]
  | .const _ => []
  | .compare _ a b => properties a ++ properties b
  | .combine _ a b => properties a ++ properties b
  | .not e => properties e
  | .call _ args => allProperties args

/-- The properties in expressions. -/
def allProperties : List Expr → List Path
  | [] => []
  | e :: es => properties e ++ allProperties es

end

mutual

/-- Two records on whose properties an expression agrees give it the same value. -/
theorem eval_congr {q r : Record} (e : Expr)
    (h : ∀ p ∈ e.properties, (property p).eval q = (property p).eval r) : e.eval q = e.eval r := by
  cases e with
  | property p =>
    rw [properties] at h
    exact h p (List.mem_singleton_self p)
  | const v => rw [eval, eval]
  | compare c a b =>
    rw [properties, List.forall_mem_append] at h
    rw [eval, eval, eval_congr a h.1, eval_congr b h.2]
  | combine op a b =>
    rw [properties, List.forall_mem_append] at h
    rw [eval, eval, eval_congr a h.1, eval_congr b h.2]
  | not e =>
    rw [properties] at h
    rw [eval, eval, eval_congr e h]
  | call m args =>
    rw [properties] at h
    rw [eval, eval, evalAll_congr args h]

/-- The same for the values of several expressions. -/
theorem evalAll_congr {q r : Record} (es : List Expr)
    (h : ∀ p ∈ allProperties es, (property p).eval q = (property p).eval r) :
    evalAll q es = evalAll r es := by
  cases es with
  | nil => rw [evalAll, evalAll]
  | cons e es =>
    rw [allProperties, List.forall_mem_append] at h
    rw [evalAll, evalAll, eval_congr e h.1, evalAll_congr es h.2]

end

end Expr

/-! ### Values at paths -/

namespace Record

/-- Below a value that is no object there is nothing but null. -/
theorem getD_follow {v : Value} {steps : List String} (hsteps : steps ≠ [])
    (hv : ∀ inner, v ≠ .object inner) : (follow steps v).getD .null = .null := by
  obtain ⟨first, rest, rfl⟩ := List.exists_cons_of_ne_nil hsteps
  cases v with
  | object inner => exact absurd rfl (hv inner)
  | null => rfl
  | _ => rfl

/-- Where there is no object there is nothing below it but null. -/
theorem getD_at? {r : Record} {name : String} {rest : List String} (hrest : rest ≠ [])
    (h : ∀ inner, r.get? name ≠ some (.object inner)) :
    (r.at? (name :: rest)).getD .null = .null := by
  rw [at?]
  cases hv : r.get? name with
  | none => rfl
  | some v =>
    exact getD_follow hrest fun inner heq => h inner (by rw [hv, heq])

end Record

namespace Binding

variable {s : Schema} {t target : s.Ty} {base name : String} {names : List (List String)}
  {bindings : List Binding} {nullable : Bool}

/-- Bindings of groups build a record of different names. -/
theorem ofPairs_values
    (hbindings : ofGroups s t base (NameTree.ofSteps names).children = .ok bindings) (r : Record) :
    Record.ofPairs (values r bindings) = values r bindings := by
  apply Record.ofPairs_of_nodup
  rw [names_values hbindings]
  exact NameTree.nodup_ofSteps names

/-- Without a name that starts with it a segment has no value. -/
theorem get?_values_of_rests_nil
    (hbindings : ofGroups s t base (NameTree.ofSteps names).children = .ok bindings) (r : Record)
    (hnone : NameTree.rests name names = []) : Record.get? (values r bindings) name = none := by
  have hlookup := NameTree.lookup_ofSteps name names
  rw [if_pos hnone] at hlookup
  exact get?_values_none hbindings r hlookup

/-- A scalar member has its value, or null. -/
theorem get?_values_scalar (hs : s.Proper)
    (hbindings : ofGroups s t base (NameTree.ofSteps names).children = .ok bindings) (r : Record)
    {kind : Kind} (hmember : (s.decl t).member? name = some (.scalar kind nullable))
    (hsome : NameTree.rests name names ≠ []) :
    Record.get? (values r bindings) name = some ((r.get? name).getD .null) := by
  have hlookup := NameTree.lookup_ofSteps name names
  rw [if_neg hsome] at hlookup
  obtain ⟨b, hb, hvalue⟩ := get?_values_some hbindings r hlookup
  rw [ofGroup_scalar (hs.name_ne_empty hmember) hmember] at hb
  cases hb
  rwa [value] at hvalue

/-- An object member is built from the object of the record, if there is one, and is null
otherwise. -/
theorem get?_values_object (hs : s.Proper) (hnames : ∀ l ∈ names, s.Leads t l)
    (hbindings : ofGroups s t base (NameTree.ofSteps names).children = .ok bindings) (r : Record)
    (hmember : (s.decl t).member? name = some (.object target nullable))
    (hsome : NameTree.rests name names ≠ []) :
    ∃ innerBindings, ofGroups s target (qualify base name)
        (NameTree.ofSteps (NameTree.rests name names)).children = .ok innerBindings ∧
      ((∃ inner, r.get? name = some (.object inner) ∧ Record.get? (values r bindings) name =
          some (.object (Record.ofPairs (values inner innerBindings)))) ∨
        (∀ inner, r.get? name ≠ some (.object inner)) ∧
          Record.get? (values r bindings) name = some .null) := by
  have hleads := rests_lead hnames hmember
  have hlookup := NameTree.lookup_ofSteps name names
  rw [if_neg hsome] at hlookup
  obtain ⟨b, hb, hvalue⟩ := get?_values_some hbindings r hlookup
  obtain ⟨innerBindings, hinner⟩ : ∃ innerBindings, ofGroups s target (qualify base name)
      (NameTree.ofSteps (NameTree.rests name names)).children = .ok innerBindings :=
    ofGroups_ok hs hleads
  rw [ofGroup_object (hs.name_ne_empty hmember) hmember (children_ne_nil hsome hleads),
    hinner] at hb
  cases hb
  refine ⟨innerBindings, hinner, ?_⟩
  rw [hvalue, value]
  split
  · rename_i inner hget
    exact Or.inl ⟨inner, hget, rfl⟩
  · rename_i hother
    exact Or.inr ⟨hother, rfl⟩

/-- At a projected path the built record has the value of the whole one, and at other paths it has
nothing, or null. -/
theorem at?_values (hs : s.Proper) {t : s.Ty} {steps : List String} (h : s.Leads t steps)
    (hnames : ∀ l ∈ names, s.Leads t l)
    (hbindings : ofGroups s t base (NameTree.ofSteps names).children = .ok bindings) (r : Record) :
    (steps ∈ names →
        (Record.at? (values r bindings) steps).getD .null = (r.at? steps).getD .null) ∧
      (steps ∉ names → Record.at? (values r bindings) steps = none ∨
        Record.at? (values r bindings) steps = some .null) := by
  induction h generalizing names base bindings r with
  | @scalar t name kind nullable hmember =>
    constructor
    · intro hmem
      have hsome : NameTree.rests name names ≠ [] :=
        List.ne_nil_of_mem (NameTree.mem_rests.mpr hmem)
      rw [Record.at?_singleton (get?_values_scalar hs hbindings r hmember hsome), Record.at?]
      cases r.get? name <;> rfl
    · intro hnot
      left
      rw [Record.at?, get?_values_of_rests_nil hbindings r (rests_scalar hnames hmember hnot)]
      rfl
  | @object t target name nullable rest hmember hrest ih =>
    have hmem : name :: rest ∈ names ↔ rest ∈ NameTree.rests name names := NameTree.mem_rests.symm
    rw [hmem]
    by_cases hsome : NameTree.rests name names = []
    · rw [hsome]
      refine ⟨fun h => absurd h List.not_mem_nil, fun _ => ?_⟩
      left
      rw [Record.at?, get?_values_of_rests_nil hbindings r hsome]
      rfl
    · obtain ⟨innerBindings, hinner, hvalue⟩ :=
        get?_values_object hs hnames hbindings r hmember hsome
      rcases hvalue with ⟨inner, hget, hvalue⟩ | ⟨hother, hvalue⟩
      · rw [ofPairs_values hinner] at hvalue
        rw [Record.at?_object hrest.ne_nil hget, Record.at?_object hrest.ne_nil hvalue]
        exact ih (rests_lead hnames hmember) hinner inner
      · -- the record has no object here, so all below it counts as null
        rw [Record.at?_null hvalue, Record.getD_at? hrest.ne_nil hother]
        exact ⟨fun _ => rfl, fun _ => Or.inr rfl⟩

end Binding

/-! ### Projections of names that resolve -/

namespace Schema

variable {s : Schema} {root : s.Ty} {names : List String}

/-- Names that resolve have paths, which are named like them. -/
theorem mapM_resolve (h : ∀ name ∈ names, ∃ p, s.resolve root name = .ok p) :
    ∃ paths, names.mapM (s.resolve root) = .ok paths ∧ paths.map (·.fullName) = names := by
  induction names with
  | nil => exact ⟨[], rfl, rfl⟩
  | cons name names ih =>
    rw [List.forall_mem_cons] at h
    obtain ⟨p, hp⟩ := h.1
    obtain ⟨paths, hpaths, hnames⟩ := ih h.2
    refine ⟨p :: paths, ?_, ?_⟩
    · rw [List.mapM_cons, hp, hpaths]
      rfl
    · rw [List.map_cons, (leads_of_resolve hp).2, hnames]

end Schema

namespace Projection

variable {s : Schema} {root : s.Ty} {names : List String}

/-- Names that resolve have a projection, and at every name that resolves it keeps the value of the
record if the name is among them, and has nothing or null otherwise. -/
theorem getPath?_apply (hs : s.Proper) (h : ∀ name ∈ names, ∃ p, s.resolve root name = .ok p) :
    ∃ projection, ofNames? s root names = .ok projection ∧
      ∀ r name p, s.resolve root name = .ok p →
        (name ∈ names → ((projection.apply r).getPath? name).getD .null =
            (r.getPath? name).getD .null) ∧
          (name ∉ names → (projection.apply r).getPath? name = none ∨
            (projection.apply r).getPath? name = some .null) := by
  have hleads : ∀ l ∈ names.map segments, s.Leads root l := by
    intro l hl
    obtain ⟨name, hname, rfl⟩ := List.mem_map.mp hl
    obtain ⟨p, hp⟩ := h name hname
    exact (Schema.leads_of_resolve hp).1
  obtain ⟨bindings, hbindings⟩ : ∃ bindings, Binding.ofGroups s root ""
      (NameTree.ofSteps (names.map segments)).children = .ok bindings :=
    Binding.ofGroups_ok hs hleads
  refine ⟨⟨s.nameOf root, bindings⟩, by rw [ofNames?_eq, hbindings]; rfl, ?_⟩
  intro r name p hp
  have hmem : segments name ∈ names.map segments ↔ name ∈ names :=
    List.mem_map_of_injective fun _ _ => segments_inj
  have hvalues := Binding.at?_values hs (Schema.leads_of_resolve hp).1 hleads hbindings r
  rw [hmem] at hvalues
  rw [Record.getPath?_eq_at?, Record.getPath?_eq_at?, apply, Binding.ofPairs_values hbindings]
  exact hvalues

/-- A list of names that resolve has a projection. On every record, of the type or not, an expression
of these names has the same value before and after projecting, and at every other name that resolves
the projected record has nothing, or null. -/
theorem eval_apply (hs : s.Proper) (h : ∀ name ∈ names, ∃ p, s.resolve root name = .ok p) :
    ∃ paths projection, names.mapM (s.resolve root) = .ok paths ∧
      ofPaths? s root paths = .ok projection ∧
      ∀ r : Record,
        (∀ e : Expr, (∀ p ∈ e.properties, p.fullName ∈ names) →
          e.eval (projection.apply r) = e.eval r) ∧
        ∀ name p, s.resolve root name = .ok p → name ∉ names →
          (projection.apply r).getPath? name = none ∨
            (projection.apply r).getPath? name = some .null := by
  obtain ⟨paths, hpaths, hnames⟩ := Schema.mapM_resolve h
  obtain ⟨projection, hprojection, hvalues⟩ := getPath?_apply hs h
  refine ⟨paths, projection, hpaths, by rw [ofPaths?, hnames, hprojection], fun r => ⟨?_, ?_⟩⟩
  · intro e he
    apply Expr.eval_congr
    intro p hp
    obtain ⟨q, hq⟩ := h p.fullName (he p hp)
    exact (hvalues r p.fullName q hq).1 (he p hp)
  · intro name p hp hnot
    exact (hvalues r name p hp).2 hnot

/-- People with a name and perhaps a manager, who is one of them, and an address with a city in some
country. -/
def staffSchema : Schema where
  size := 3
  types := #v[
    ⟨"Person", "Person",
      [⟨"name", .scalar .text false⟩, ⟨"manager", .object 0 true⟩, ⟨"address", .object 1 false⟩]⟩,
    ⟨"Address", "Address", [⟨"city", .scalar .text false⟩, ⟨"country", .object 2 false⟩]⟩,
    ⟨"Country", "Country", [⟨"code", .scalar .text false⟩]⟩]

/-- The names of people and the cities of their managers, from any record. -/
theorem eval_apply_staff :
    staffSchema.Proper ∧
      (∀ name ∈ ["name", "manager.address.city"],
        ∃ p, staffSchema.resolve (0 : Fin 3) name = .ok p) ∧
      ∃ paths projection, ["name", "manager.address.city"].mapM
          (staffSchema.resolve (0 : Fin 3)) = .ok paths ∧
        ofPaths? staffSchema (0 : Fin 3) paths = .ok projection ∧
        ∀ r : Record,
          (∀ e : Expr, (∀ p ∈ e.properties, p.fullName ∈ ["name", "manager.address.city"]) →
            e.eval (projection.apply r) = e.eval r) ∧
          ∀ name p, staffSchema.resolve (0 : Fin 3) name = .ok p →
            name ∉ ["name", "manager.address.city"] →
            (projection.apply r).getPath? name = none ∨
              (projection.apply r).getPath? name = some .null := by
  have hs : staffSchema.Proper := ⟨by decide, by decide⟩
  have h : ∀ name ∈ ["name", "manager.address.city"],
      ∃ p, staffSchema.resolve (0 : Fin 3) name = .ok p := by
    rw [List.forall_mem_cons, List.forall_mem_singleton]
    exact ⟨⟨_, rfl⟩, ⟨_, rfl⟩⟩
  exact ⟨hs, h, eval_apply hs h⟩

end Projection

end EntityQuery
