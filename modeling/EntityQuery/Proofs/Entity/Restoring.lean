import EntityQuery.Proofs.Entity.Members

/-!
# Data that come back from their values

A datum of a type comes back from its value, and an entity from its record, if the visible members
of every entity type have different names and no option is directly in an option.

* `MemberType.isApart` — types without an option in an option, at any depth.
* `EntityModel.Lossless` — models that keep apart what their members store.
* `EntityModel.Storable` — data whose hidden members are untouched.
* `EntityModel.decode?_encode_storable` — a datum comes back from its value.
* `EntityModel.decodeMembers_encodeMembers` — so do the members of an entity.
* `EntityModel.codec_lossless` — both together.
-/

namespace EntityQuery

namespace MemberType

variable {n : Nat}

/-- Whether no option is directly in an option, neither in the type nor in what its lists hold. -/
def isApart : MemberType n → Bool
  | .option t => !t.isOptional && t.isApart
  | .boxed t | .list _ t => t.isApart
  | .scalar _ | .entity _ => true

end MemberType

namespace EntityModel

/-- Models whose visible members have different names within a type and hold no option in an
option. -/
structure Lossless (m : EntityModel) : Prop where
  distinct : ∀ e, ((m.decl e).visible.map (·.name)).Nodup
  apart : ∀ e, ∀ d ∈ (m.decl e).visible, d.type.isApart

/-- The data of a type in which all hidden members are untouched. -/
inductive Storable (m : EntityModel) : MemberType m.size → Datum → Prop where
  | scalar {t : ScalarType} {d : Datum} : t.Admits d → Storable m (.scalar t) d
  | absent {t : MemberType m.size} : Storable m (.option t) .absent
  | present {t : MemberType m.size} {d : Datum} :
      Storable m t d → Storable m (.option t) (.present d)
  | boxed {t : MemberType m.size} {d : Datum} : Storable m t d → Storable m (.boxed t) d
  | list {element : String} {t : MemberType m.size} {items : List Datum} :
      (∀ d ∈ items, Storable m t d) → Storable m (.list element t) (.list items)
  | entity {e : m.Ty} {members : List Datum} :
      members.length = (m.decl e).members.length →
      (∀ x ∈ (m.decl e).members.zip members, x.1.hidden → x.2 = m.untouched x.1.type) →
      (∀ x ∈ (m.decl e).members.zip members, !x.1.hidden → Storable m x.1.type x.2) →
      Storable m (.entity e) (.entity members)

variable {m : EntityModel} {e : m.Ty} {t : MemberType m.size} {d : Datum}

/-- No datum is read from null, unless nothing is one of the data. -/
theorem decode?_null (ht : t.isOptional = false) : m.decode? t .null = none := by
  induction t with
  | scalar t => rw [decode?, ScalarType.decode?_null]
  | option t => cases ht
  | boxed t ih =>
    rw [decode?]
    exact ih ht
  | list | entity => simp [decode?]

theorem decodeItems?_encodeItems {items : List Datum}
    (h : ∀ d ∈ items, m.decode? t (m.encode t d) = some d) :
    m.decodeItems? t (m.encodeItems t items) = some items := by
  induction items with
  | nil => rw [encodeItems, decodeItems?]
  | cons d items ih =>
    rw [encodeItems, decodeItems?, h d List.mem_cons_self, Option.bind_some,
      ih fun d hd => h d (List.mem_cons_of_mem _ hd), Option.map_some]

/-- The members of an entity come back from its record, if the visible ones come back from their
values and the hidden ones are untouched. -/
theorem decodeMembers_encodeMembers {decls : List (MemberDecl m.size)} {members : List Datum}
    (hdistinct : ((decls.filter fun d => !d.hidden).map (·.name)).Nodup)
    (hlength : members.length = decls.length)
    (hhidden : ∀ x ∈ decls.zip members, x.1.hidden → x.2 = m.untouched x.1.type)
    (hback : ∀ x ∈ decls.zip members, !x.1.hidden →
      m.decode? x.1.type (m.encode x.1.type x.2) = some x.2) :
    m.decodeMembers (Record.ofPairs (m.encodeMembers decls members)) decls = members := by
  rw [decodeMembers_eq_map]
  refine List.ext_getElem (by rw [List.length_map, hlength]) fun i hdecl hmember => ?_
  rw [List.length_map] at hdecl
  have hmem : (decls[i], members[i]) ∈ decls.zip members := List.mem_iff_getElem.mpr
    ⟨i, by rw [List.length_zip]; omega, List.getElem_zip⟩
  rw [List.getElem_map]
  cases hvisible : decls[i].hidden with
  | true =>
    rw [if_pos rfl]
    exact (hhidden _ hmem hvisible).symm
  | false =>
    have hdecode := hback _ hmem (by rw [hvisible]; rfl)
    rw [if_neg Bool.false_ne_true, readMember, get?_encodeMembers hdistinct hmem hvisible,
      Option.bind_some, hdecode, Option.getD_some]

/-- A datum comes back from its value. -/
theorem decode?_encode_storable (hm : m.Lossless) (h : m.Storable t d) (ht : t.isApart) :
    m.decode? t (m.encode t d) = some d := by
  induction h with
  | scalar hd =>
    rw [encode, decode?]
    exact ScalarType.decode?_encode hd
  | absent => rw [encode_absent, decode?_absent]
  | @present t d hd ih =>
    rw [MemberType.isApart, Bool.and_eq_true, Bool.not_eq_true'] at ht
    have hback := ih ht.2
    -- what is inside has a value of its own, since nothing is read from null
    have hvalue : m.encode t d ≠ .null := by
      intro hnull
      rw [hnull, decode?_null ht.1] at hback
      cases hback
    rw [encode, decode?_option hvalue, hback, Option.map_some]
  | boxed hd ih =>
    rw [encode, decode?]
    exact ih ht
  | list hitems ih =>
    rw [encode, decode?, decodeItems?_encodeItems fun d hd => ih d hd ht, Option.map_some]
  | @entity e members hlength hhidden hvisible ih =>
    have hback : ∀ x ∈ (m.decl e).members.zip members, !x.1.hidden →
        m.decode? x.1.type (m.encode x.1.type x.2) = some x.2 := by
      intro x hx hshown
      refine ih x hx hshown (hm.apart e x.1 (List.mem_filter.mpr ⟨?_, hshown⟩))
      exact (List.of_mem_zip hx).1
    rw [encode, decode?, decodeMembers_encodeMembers (hm.distinct e) hlength hhidden hback]

/-- In a model that keeps apart what its members store, a datum of every type comes back from its
value, and every entity comes back from its record. -/
theorem codec_lossless (m : EntityModel) (hm : m.Lossless) :
    (∀ t d, t.isApart → m.Storable t d → m.decode? t (m.encode t d) = some d) ∧
      ∀ e d, m.Storable (.entity e) d → m.ofRecord e (m.toRecord e d) = d := by
  refine ⟨fun t d ht hd => decode?_encode_storable hm hd ht, fun e d hd => ?_⟩
  have hback := decode?_encode_storable hm hd rfl
  cases hd with
  | entity hlength hhidden hvisible =>
    rw [encode, decode?] at hback
    exact Option.some.inj hback

/-- A member of a team has a hidden note, a level, scores and a chief, who is such a member. -/
theorem codec_lossless_team :
    let level : ScalarType := .ofKind (.enum "Level" ["low", "high"])
    let member : EntityDecl 1 := ⟨"Member", "team::Member",
      [⟨"note", .scalar .char, true⟩, ⟨"level", .scalar level, false⟩,
        ⟨"scores", .list "u8" (.option (.scalar (.ofKind (.unsigned .w8)))), false⟩,
        ⟨"chief", .option (.boxed (.entity 0)), false⟩]⟩
    let m : EntityModel := ⟨1, #v[member], fun _ variants => variants.headD ""⟩
    let chief : Datum := .entity [.char '\x00', .variant "high", .list [], .absent]
    let d : Datum := .entity
      [.char '\x00', .variant "low", .list [.present (.integer 7), .absent], .present chief]
    m.Lossless ∧ m.Storable (.entity 0) d ∧
      m.decode? (.entity 0) (m.encode (.entity 0) d) = some d ∧
      m.ofRecord 0 (m.toRecord 0 d) = d := by
  intro level member m chief d
  have hm : m.Lossless := ⟨by decide, by decide⟩
  have hnote : Datum.char '\x00' = m.untouched (.scalar .char) := by
    rw [untouched, untouchedAt]
    rfl
  have hshown {P : Prop} (h : false = true) : P := absurd h Bool.false_ne_true
  have hmember {name : String} {items : List Datum} {chief : Datum}
      (hname : name ∈ ["low", "high"])
      (hitems : ∀ d ∈ items, m.Storable (.option (.scalar (.ofKind (.unsigned .w8)))) d)
      (hchief : m.Storable (.option (.boxed (.entity 0))) chief) :
      m.Storable (.entity 0) (.entity [.char '\x00', .variant name, .list items, chief]) := by
    refine .entity rfl ?_ ?_
    · refine List.forall_mem_cons.mpr ⟨fun _ => hnote, ?_⟩
      refine List.forall_mem_cons.mpr ⟨hshown, List.forall_mem_cons.mpr ⟨hshown, ?_⟩⟩
      exact List.forall_mem_singleton.mpr hshown
    · refine List.forall_mem_cons.mpr ⟨hshown, List.forall_mem_cons.mpr ⟨fun _ => ?_, ?_⟩⟩
      · exact .scalar hname
      · refine List.forall_mem_cons.mpr ⟨fun _ => .list hitems, ?_⟩
        exact List.forall_mem_singleton.mpr fun _ => hchief
  have hd : m.Storable (.entity 0) d := by
    have hchief : m.Storable (.entity 0) chief :=
      hmember (by decide) (List.forall_mem_nil _) .absent
    refine hmember (by decide) ?_ (.present (.boxed hchief))
    refine List.forall_mem_cons.mpr ⟨.present (.scalar ?_), List.forall_mem_singleton.mpr .absent⟩
    show Kind.fitsUnsigned .w8 7
    decide
  obtain ⟨hvalue, hrecord⟩ := codec_lossless m hm
  exact ⟨hm, hd, hvalue (.entity 0) d rfl hd, hrecord 0 d hd⟩

end EntityModel

end EntityQuery
