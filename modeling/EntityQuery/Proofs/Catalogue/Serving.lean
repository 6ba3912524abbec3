import EntityQuery.Catalogue.Basic
import Mathlib.Data.List.Induction

/-!
# What a catalogue serves

A catalogue is set up and asked for queries in any order. It serves each type that is registered
from the provider that was registered last for it, and a name stands for the type that was
registered first among those of the name.

* `CatalogueUse`, `Catalogue.afterUses` — the history of a catalogue.
* `CatalogueUse.registrations`, `lastProvider?` — what is registered in a history, and last for a
  type.
* `Catalogue.Holds` — a registry holds what was registered.
* `Catalogue.served` — what is served after any history, for a type and for its name.
-/

namespace EntityQuery

variable {m : EntityModel}

/-! ### Histories -/

/-- What is done with a catalogue. -/
inductive CatalogueUse (m : EntityModel) where
  | setUp (s : CatalogueStep m)
  | build (entity : m.Ty)
  | buildFor (name : String)

/-- What is registered by a use. -/
def CatalogueUse.registration? : CatalogueUse m → Option (m.Ty × (Nat → Source))
  | .setUp (.register e p) => some (e, p)
  | _ => none

/-- What is registered in a history. -/
def CatalogueUse.registrations (uses : List (CatalogueUse m)) : List (m.Ty × (Nat → Source)) :=
  uses.filterMap registration?

/-- The provider that was registered last for a type. -/
def lastProvider? (registered : List (m.Ty × (Nat → Source))) (e : m.Ty) : Option (Nat → Source) :=
  (registered.reverse.find? (·.1 == e)).map (·.2)

/-- A registered type has a provider. -/
theorem exists_lastProvider? {registered : List (m.Ty × (Nat → Source))} {e : m.Ty}
    (h : e ∈ registered.map (·.1)) : ∃ p, lastProvider? registered e = some p := by
  obtain ⟨r, hr, rfl⟩ := List.mem_map.mp h
  have hfound : (registered.reverse.find? (·.1 == r.1)).isSome := by
    rw [List.find?_isSome]
    exact ⟨r, List.mem_reverse.mpr hr, beq_self_eq_true _⟩
  obtain ⟨last, hlast⟩ := Option.isSome_iff_exists.mp hfound
  exact ⟨last.2, by rw [lastProvider?, hlast, Option.map_some]⟩

theorem lastProvider?_concat (registered : List (m.Ty × (Nat → Source))) (e f : m.Ty)
    (p : Nat → Source) :
    lastProvider? (registered ++ [(f, p)]) e =
      if f = e then some p else lastProvider? registered e := by
  by_cases h : f = e <;> simp [lastProvider?, h]

namespace Catalogue

/-- A catalogue after it was used. A query is built by asking a provider. -/
def use (c : Catalogue m) : CatalogueUse m → Catalogue m
  | .setUp s => c.step s
  | .build e => (c.build e).2
  | .buildFor name => (c.buildFor name).2

/-- A catalogue after a history. -/
def afterUses (c : Catalogue m) (uses : List (CatalogueUse m)) : Catalogue m := uses.foldl use c

/-! ### Registries -/

/-- The registration of a type. -/
def registration? (registry : List (Registration m)) (e : m.Ty) : Option (Registration m) :=
  registry.find? (·.entity == e)

/-- A registration that is placed is the one of its type. Those of other types stay. -/
theorem registration?_place (r : Registration m) (registry : List (Registration m)) (e : m.Ty) :
    registration? (place r registry) e =
      if r.entity = e then some r else registration? registry e := by
  induction registry with
  | nil => by_cases h : r.entity = e <;> simp [place, registration?, h]
  | cons old others ih =>
    by_cases hold : old.entity = r.entity
    · by_cases h : r.entity = e <;> simp_all [place, registration?]
    · by_cases h : r.entity = e <;> simp_all [place, registration?, List.find?_cons]

/-- A registry holds what was registered: every type once, in the order of first registration, with
the provider that was registered last for it. -/
structure Holds (registry : List (Registration m)) (registered : List (m.Ty × (Nat → Source))) :
    Prop where
  entities : registry.map (·.entity) = (registered.map (·.1)).eraseDups
  provider (e : m.Ty) :
    (registration? registry e).map (·.provider) = lastProvider? registered e

namespace Holds

variable {registry : List (Registration m)} {registered : List (m.Ty × (Nat → Source))}

/-- Nothing was registered before the first registration. -/
theorem nil : Holds ([] : List (Registration m)) [] := ⟨rfl, fun _ => rfl⟩

/-- A registration replaces the provider of its type, or comes after all others. -/
theorem register (h : Holds registry registered) (e : m.Ty) (p : Nat → Source) :
    Holds (place ⟨e, p, 0⟩ registry) (registered ++ [(e, p)]) where
  entities := by
    rw [entities_place, h.entities, List.map_append, List.eraseDups_append]
    by_cases hmem : e ∈ registered.map (·.1) <;>
      simp_all [List.removeAll, List.eraseDups_cons]
  provider f := by
    rw [registration?_place, lastProvider?_concat, ← h.provider]
    by_cases hf : e = f
    · rw [if_pos hf, if_pos hf, Option.map_some]
    · rw [if_neg hf, if_neg hf]

/-- A registry holds the same after a provider was called. -/
theorem call (h : Holds registry registered) {r : Registration m} {e : m.Ty}
    (hr : registration? registry e = some r) :
    Holds (place { r with calls := r.calls + 1 } registry) registered := by
  obtain rfl : r.entity = e := by simpa using List.find?_some hr
  have hmem : (registry.map (·.entity)).contains r.entity :=
    List.contains_iff_mem.mpr (List.mem_map_of_mem (List.mem_of_find?_eq_some hr))
  constructor
  · rw [entities_place, if_pos hmem, h.entities]
  · intro f
    rw [registration?_place, ← h.provider]
    by_cases hf : r.entity = f
    · rw [if_pos hf, ← hf, hr, Option.map_some, Option.map_some]
    · rw [if_neg hf]

end Holds

variable {c : Catalogue m} {registered : List (m.Ty × (Nat → Source))}

/-- A build leaves what is registered as it is, and the size of pages. -/
theorem build_keeps (h : Holds c.registry registered) (e : m.Ty) :
    Holds (c.build e).2.registry registered ∧
      (c.build e).2.defaultPageSize = c.defaultPageSize := by
  rw [build]
  split
  · exact ⟨h, rfl⟩
  · next r hr => exact ⟨h.call hr, rfl⟩

/-- After a use the registry also holds what was registered by it. -/
theorem use_keeps (h : Holds c.registry registered) (u : CatalogueUse m) :
    Holds (c.use u).registry (registered ++ u.registration?.toList) ∧
      (c.use u).defaultPageSize = c.defaultPageSize := by
  have kept {k : Catalogue m}
      (hk : Holds k.registry registered ∧ k.defaultPageSize = c.defaultPageSize) :
      Holds k.registry (registered ++ []) ∧ k.defaultPageSize = c.defaultPageSize := by
    rwa [List.append_nil]
  cases u with
  | setUp s =>
    cases s with
    | register e p => exact ⟨h.register e p, rfl⟩
    | _ => exact kept ⟨h, rfl⟩
  | build e => exact kept (build_keeps h e)
  | buildFor name =>
    refine kept ?_
    rw [use, buildFor]
    split
    · exact ⟨h, rfl⟩
    · exact build_keeps h _

/-- After a history the registry also holds what was registered in it. -/
theorem afterUses_keeps (h : Holds c.registry registered) (uses : List (CatalogueUse m)) :
    Holds (c.afterUses uses).registry (registered ++ CatalogueUse.registrations uses) ∧
      (c.afterUses uses).defaultPageSize = c.defaultPageSize := by
  induction uses generalizing c registered with
  | nil => exact ⟨(List.append_nil registered).symm ▸ h, rfl⟩
  | cons u uses ih =>
    obtain ⟨hregistry, hsize⟩ := use_keeps h u
    obtain ⟨hlast, hlastSize⟩ := ih hregistry
    refine ⟨?_, hlastSize.trans hsize⟩
    have hsplit : CatalogueUse.registrations (u :: uses) =
        u.registration?.toList ++ CatalogueUse.registrations uses := by
      cases hu : u.registration? <;> simp [CatalogueUse.registrations, hu]
    rw [hsplit, ← List.append_assoc]
    exact hlast

/-! ### Queries -/

/-- An outcome that is a query for a type on a source of a provider. -/
def Serves (e : m.Ty) (p : Nat → Source) (outcome : Except QueryError (Query m)) : Prop :=
  ∃ q k, outcome = .ok q ∧ q.entity = e ∧ q.source = p k

/-- A type is served from its provider if pages have a size. -/
theorem Holds.serves (h : Holds c.registry registered) {e : m.Ty} {p : Nat → Source}
    (hp : lastProvider? registered e = some p) :
    if c.defaultPageSize = 0 then (c.build e).1 = .error .invalidPageSize
    else Serves e p (c.build e).1 := by
  obtain ⟨r, hr, rfl⟩ := Option.map_eq_some_iff.mp ((h.provider e).trans hp)
  obtain rfl : r.entity = e := by simpa using List.find?_some hr
  have hbuild : c.build r.entity = c.buildFrom r := by
    rw [registration?] at hr
    rw [build, hr]
  rw [hbuild]
  by_cases hsize : c.defaultPageSize = 0
  · rw [if_pos hsize]
    exact if_pos hsize
  · rw [if_neg hsize]
    exact ⟨_, r.calls, if_neg hsize, rfl, rfl⟩

/-- Of the types with a property, the one that was registered first comes first. -/
theorem find?_eraseDups (types : List m.Ty) (f : m.Ty → Bool) :
    types.eraseDups.find? f = types.find? f := by
  induction types using List.reverseRecOn with
  | nil => rfl
  | append_singleton types e ih =>
    rw [List.eraseDups_append, List.find?_append, List.find?_append, ih]
    by_cases hmem : e ∈ types
    · cases hfound : types.find? f with
      | none => simp [List.removeAll, hmem, List.find?_eq_none.mp hfound e hmem]
      | some first => simp
    · simp_all [List.removeAll, List.eraseDups_cons]

/-- A name stands for the type of the name that was registered first. -/
theorem Holds.buildFor_eq (h : Holds c.registry registered) {name : String} {e : m.Ty}
    (he : (registered.map (·.1)).find? (m.nameOf · == name) = some e) :
    c.buildFor name = c.build e := by
  rw [← find?_eraseDups, ← h.entities, List.find?_map] at he
  obtain ⟨r, hr, rfl⟩ := Option.map_eq_some_iff.mp he
  have hnamed : (c.registry.find? fun r => m.nameOf r.entity == name) = some r := hr
  rw [buildFor, hnamed]

/-- **What a catalogue serves.** After any history of a new catalogue, every registered type is an
entity of it once, in the order of first registration. A query for a registered type is a query on a
source of the provider that was registered last for the type, and a query for its name is a query
for the type that was registered first among those of the name. Without a size of pages there is no
query. -/
theorem served (c₀ : Catalogue m) (hnew : c₀.registry = []) (uses : List (CatalogueUse m)) :
    let c := c₀.afterUses uses
    let registered := CatalogueUse.registrations uses
    let types := registered.map (·.1)
    c.entities = types.eraseDups ∧
      ∀ e ∈ types,
        (∃ p, lastProvider? registered e = some p ∧
          if c₀.defaultPageSize = 0 then (c.build e).1 = .error .invalidPageSize
          else Serves e p (c.build e).1) ∧
        ∃ f, types.find? (m.nameOf · == m.nameOf e) = some f ∧
          c.buildFor (m.nameOf e) = c.build f := by
  intro c registered types
  have hstart : Holds c₀.registry [] := hnew ▸ .nil
  obtain ⟨h, hsize⟩ := afterUses_keeps hstart uses
  refine ⟨h.entities, fun e he => ⟨?_, ?_⟩⟩
  · obtain ⟨p, hp⟩ := exists_lastProvider? he
    exact ⟨p, hp, hsize ▸ h.serves hp⟩
  · have hnamed : (types.find? (m.nameOf · == m.nameOf e)).isSome := by
      rw [List.find?_isSome]
      exact ⟨e, he, beq_self_eq_true _⟩
    obtain ⟨f, hf⟩ := Option.isSome_iff_exists.mp hnamed
    exact ⟨f, hf, h.buildFor_eq hf⟩

/-- Badges of visitors and badges of staff, by one name. -/
def badges : EntityModel where
  size := 2
  entities := #v[
    ⟨"Badge", "visitor::Badge", [{ name := "first_name", type := .scalar (.ofKind .text) }]⟩,
    ⟨"Badge", "staff::Badge", [{ name := "number", type := .scalar (.ofKind .text) }]⟩]

/-- Badges of visitors are registered again after those of staff. They stay the badges that the name
stands for. -/
theorem served_badges :
    let visitor : badges.Ty := (0 : Fin 2)
    let staff : badges.Ty := (1 : Fin 2)
    let stored (e : badges.Ty) (items : List Datum) : Nat → Source :=
      fun _ => .memory badges e items
    let c := ({} : Catalogue badges).afterUses [
      .setUp (.register visitor (stored visitor [])), .buildFor "Badge",
      .setUp (.register staff (stored staff [])),
      .setUp (.register visitor (stored visitor [.entity [.text "Ann"]]))]
    c.entities = [visitor, staff] ∧
      Serves visitor (stored visitor [.entity [.text "Ann"]]) (c.build visitor).1 ∧
      Serves staff (stored staff []) (c.build staff).1 ∧
      c.buildFor "Badge" = c.build visitor := by
  intro visitor staff stored c
  obtain ⟨hentities, hserved⟩ := served ({} : Catalogue badges) rfl [
    .setUp (.register visitor (stored visitor [])), .buildFor "Badge",
    .setUp (.register staff (stored staff [])),
    .setUp (.register visitor (stored visitor [.entity [.text "Ann"]]))]
  have htypes : visitor ∈ [visitor, staff, visitor] ∧ staff ∈ [visitor, staff, visitor] := by simp
  obtain ⟨⟨p, hp, hvisitor⟩, -⟩ := hserved visitor htypes.1
  obtain ⟨⟨p', hp', hstaff⟩, f, hf, hname⟩ := hserved staff htypes.2
  obtain rfl := Option.some.inj hp
  obtain rfl := Option.some.inj hp'
  obtain rfl := Option.some.inj hf
  exact ⟨hentities, hvisitor, hstaff, hname⟩

/-- A name does not stand for every type of the name, and without a size of pages a registered type
is not served at all. -/
theorem not_served_badges :
    let visitor : badges.Ty := (0 : Fin 2)
    let staff : badges.Ty := (1 : Fin 2)
    let stored (e : badges.Ty) : Nat → Source := fun _ => .memory badges e []
    let unsized : Catalogue badges :=
      (ofSettings { defaultPageSize := 0 }).afterUses [.setUp (.register visitor (stored visitor))]
    let both : Catalogue badges :=
      ({} : Catalogue badges).afterUses [.setUp (.register visitor (stored visitor)),
        .setUp (.register staff (stored staff))]
    (unsized.build visitor).1 = .error .invalidPageSize ∧
      (unsized.buildFor (badges.nameOf visitor)).1 = .error .invalidPageSize ∧
      ¬ Serves staff (stored staff) (both.buildFor (badges.nameOf staff)).1 := by
  intro visitor staff stored unsized both
  refine ⟨rfl, rfl, ?_⟩
  rintro ⟨q, k, hq, hentity, -⟩
  have hvisitor : q.entity = visitor := by
    cases hq
    rfl
  have hdistinct : ¬ (0 : Fin 2) = 1 := by decide
  exact hdistinct (hvisitor.symm.trans hentity)

end Catalogue

end EntityQuery
