import EntityQuery.Proofs.Entity.Members
import EntityQuery.Proofs.Number.Narrow

/-!
# Data that members store

The data that a member of a type can store, and those that it does store when an entity is read from
a record: what is read from a value is a datum of the type, whatever the value is, and so is what an
untouched member stores.

* `ScalarType.Stores`, `EntityModel.Stored` — the data that members can store.
* `ScalarType.accepts_encode` — the value of a scalar datum.
* `ScalarType.stores_of_decode?`, `EntityModel.stored_of_decode?` — data that are read.
* `EntityModel.Constructible`, `EntityModel.stored_untouched` — data of untouched members.
* `EntityModel.stored_ofRecord` — entities that are read from records.
-/

namespace EntityQuery

/-! ### Data of scalar types -/

namespace ScalarType

/-- The data that a member of a scalar type can store. A wide integer may be outside the range of 64
bits, and a narrow floating-point number is inside the narrow range. -/
def Stores : ScalarType → Datum → Prop
  | .wide _, .integer _ => True
  | .ofKind .single, .float x => Kind.fitsSingle x
  | t, d => t.Admits d

/-- A wide integer outside the range of 64 bits. -/
def Exceeds : ScalarType → Datum → Prop
  | .wide true, .integer i => i < -9223372036854775808 ∨ 9223372036854775807 < i
  | .wide false, .integer i => i < 0 ∨ 18446744073709551615 < i
  | _, _ => False

theorem accepts_signed {w : Width} {i : Int} (h : Kind.fitsSigned w i) :
    (Kind.signed w).accepts (integerValue true i) := by
  have hwide := fitsSigned_wide h
  have hback : Kind.integer? (integerValue true i) = some i := integer?_integerValue hwide
  rw [integerValue, if_pos rfl, if_pos hwide] at hback ⊢
  rw [Kind.integer?, Option.some.injEq] at hback
  rw [Kind.accepts, hback]
  exact h

theorem accepts_unsigned {w : Width} {i : Int} (h : Kind.fitsUnsigned w i) :
    (Kind.unsigned w).accepts (integerValue false i) := by
  have hwide := fitsUnsigned_wide h
  have hback : Kind.integer? (integerValue false i) = some i := integer?_integerValue hwide
  rw [integerValue, if_neg Bool.false_ne_true, if_pos hwide] at hback ⊢
  rw [Kind.integer?, Option.some.injEq] at hback
  rw [Kind.accepts, hback]
  exact h

/-- The value of a stored datum is one of the kind, unless it is null because the datum is a wide
integer outside the range of 64 bits. -/
theorem accepts_encode {t : ScalarType} {d : Datum} (h : t.Stores d) :
    t.kind.accepts (t.encode d) ∨ t.encode d = .null ∧ t.Exceeds d := by
  cases t with
  | wide signed =>
    cases d <;> try (cases signed <;> exact h.elim)
    rename_i i
    cases signed with
    | true =>
      by_cases hfits : Kind.fitsSigned .w64 i = true
      · exact Or.inl (accepts_signed hfits)
      · refine Or.inr ⟨by rw [encode, integerValue, if_pos rfl, if_neg hfits], ?_⟩
        rw [fitsSigned_iff] at hfits
        simp only [Width.bits] at hfits
        rw [Exceeds]
        omega
    | false =>
      by_cases hfits : Kind.fitsUnsigned .w64 i = true
      · exact Or.inl (accepts_unsigned hfits)
      · refine Or.inr ⟨by
          rw [encode, integerValue, if_neg Bool.false_ne_true, if_neg hfits], ?_⟩
        rw [fitsUnsigned_iff] at hfits
        simp only [Width.bits] at hfits
        rw [Exceeds]
        omega
  | char =>
    cases d <;> try exact h.elim
    exact Or.inl rfl
  | ofKind k =>
    left
    cases k <;> cases d <;> (try exact h.elim) <;> (try rfl)
    case signed.integer w i => exact accepts_signed h
    case unsigned.integer w i => exact accepts_unsigned h
    case single.float x => exact h
    case enum.variant name variants v => exact List.contains_iff_mem.mpr h

/-- What is read from a value can be stored. -/
theorem stores_of_decode? {t : ScalarType} {v : Value} {d : Datum} (h : t.decode? v = some d) :
    t.Stores d := by
  cases t with
  | wide signed =>
    obtain ⟨i, -, hread⟩ := Option.bind_eq_some_iff.mp h
    split at hread <;> cases hread
    trivial
  | char =>
    cases v <;> try cases h
    obtain ⟨c, -, rfl⟩ := Option.map_eq_some_iff.mp h
    trivial
  | ofKind k =>
    cases k with
    | signed w =>
      obtain ⟨i, -, hread⟩ := Option.bind_eq_some_iff.mp h
      obtain ⟨hfits, hvalue⟩ := Option.ite_none_right_eq_some.mp hread
      cases hvalue
      exact hfits
    | unsigned w =>
      obtain ⟨i, -, hread⟩ := Option.bind_eq_some_iff.mp h
      obtain ⟨hfits, hvalue⟩ := Option.ite_none_right_eq_some.mp hread
      cases hvalue
      exact hfits
    | single =>
      simp only [decode?] at h
      split at h
      · rename_i x hcoerce
        cases h
        exact Binary64.fitsSingle_toSingle (Kind.fitsSingle_of_coerce? hcoerce)
      · cases h
    | double =>
      simp only [decode?] at h
      split at h
      · cases h
        trivial
      · cases h
    | enum name variants =>
      obtain ⟨text, -, hread⟩ := Option.bind_eq_some_iff.mp h
      obtain ⟨hmem, hvalue⟩ := Option.ite_none_right_eq_some.mp hread
      cases hvalue
      exact List.contains_iff_mem.mp hmem
    | bool | decimal | text | date | dateTime | timestamp | time | uuid =>
      cases v <;> cases h
      trivial

/-- An untouched scalar can be stored, if an enumeration starts with one of its variants. -/
theorem stores_untouched {initial : String → List String → String} {t : ScalarType}
    (h : ∀ name variants, t = .ofKind (.enum name variants) → initial name variants ∈ variants) :
    t.Stores (t.untouched initial) := by
  cases t with
  | wide | char => trivial
  | ofKind k =>
    cases k with
    | enum name variants => exact h name variants rfl
    | signed w | unsigned w => cases w <;> rfl
    | single => exact decide_eq_true (Nat.zero_le _)
    | bool | double | decimal | text | date | dateTime | timestamp | time | uuid => trivial

end ScalarType

namespace EntityModel

/-! ### Stored data -/

/-- The data that a member of a type can store. The hidden members of entities do not matter. -/
inductive Stored (m : EntityModel) : MemberType m.size → Datum → Prop where
  | scalar {t : ScalarType} {d : Datum} : t.Stores d → Stored m (.scalar t) d
  | absent {t : MemberType m.size} : Stored m (.option t) .absent
  | present {t : MemberType m.size} {d : Datum} : Stored m t d → Stored m (.option t) (.present d)
  | boxed {t : MemberType m.size} {d : Datum} : Stored m t d → Stored m (.boxed t) d
  | list {element : String} {t : MemberType m.size} {items : List Datum} :
      (∀ d ∈ items, Stored m t d) → Stored m (.list element t) (.list items)
  | entity {e : m.Ty} {members : List Datum} :
      members.length = (m.decl e).members.length →
      (∀ x ∈ (m.decl e).members.zip members, x.1.hidden = false → Stored m x.1.type x.2) →
      Stored m (.entity e) (.entity members)

variable {m : EntityModel} {e : m.Ty} {t : MemberType m.size} {d : Datum} {decl : MemberDecl m.size}

/-! ### Untouched data and data that are read -/

/-- Models whose untouched members are data: no entity type occurs in itself, and an enumeration
that starts with a variant starts with one of its own. -/
structure Constructible (m : EntityModel) : Prop where
  founded : ∀ e, Acc m.Holds e
  starts : ∀ e, ∀ decl ∈ (m.decl e).visible, ∀ name variants,
    decl.type.typeRef = .scalar (.enum name variants) false → m.initial name variants ∈ variants

/-- An entity whose data depend on their declarations stores data of its types if its visible members
do. -/
theorem stored_entity_map {f : MemberDecl m.size → Datum}
    (h : ∀ decl ∈ (m.decl e).visible, m.Stored decl.type (f decl)) :
    m.Stored (.entity e) (.entity ((m.decl e).members.map f)) := by
  refine .entity (List.length_map f) fun x hx hvisible => ?_
  have hzip := List.zip_map' (f := id) (g := f) (l := (m.decl e).members)
  rw [List.map_id] at hzip
  rw [hzip, List.mem_map] at hx
  obtain ⟨decl, hdecl, rfl⟩ := hx
  exact h decl (List.mem_filter.mpr ⟨hdecl, by rw [show decl.hidden = false from hvisible]; rfl⟩)

/-- An untouched datum is a datum of its type if this holds of the entity that the type holds. -/
theorem stored_untouched_of_held
    (hstarts : ∀ name variants, t.typeRef = .scalar (.enum name variants) false →
      m.initial name variants ∈ variants)
    (hheld : ∀ inner, t.held? = some inner →
      m.Stored (.entity inner) (m.untouched (.entity inner))) :
    m.Stored t (m.untouched t) := by
  induction t with
  | scalar t =>
    rw [untouched, untouchedAt]
    refine .scalar (ScalarType.stores_untouched fun name variants ht => hstarts name variants ?_)
    rw [ht]
    rfl
  | option t =>
    rw [untouched, untouchedAt]
    exact .absent
  | boxed t ih =>
    have hboxed : m.untouched (.boxed t) = m.untouched t := by
      rw [untouched, untouchedAt]
      rfl
    rw [hboxed]
    exact .boxed (ih hstarts hheld)
  | list element t =>
    rw [untouched, untouchedAt]
    exact .list (List.forall_mem_nil _)
  | entity e => exact hheld e rfl

theorem stored_untouched_entity (hm : m.Constructible) (e : m.Ty) :
    m.Stored (.entity e) (m.untouched (.entity e)) := by
  induction hm.founded e with
  | intro e hinner ih =>
    rw [untouched_entity (Acc.intro e hinner)]
    refine stored_entity_map fun decl hdecl => ?_
    refine stored_untouched_of_held (hm.starts e decl hdecl) fun inner hheld => ?_
    exact ih inner ⟨decl, List.mem_of_mem_filter hdecl, hheld⟩

/-- An untouched visible member stores a datum of its type. -/
theorem stored_untouched (hm : m.Constructible) (hdecl : decl ∈ (m.decl e).visible) :
    m.Stored decl.type (m.untouched decl.type) :=
  stored_untouched_of_held (hm.starts e decl hdecl) fun inner _ => stored_untouched_entity hm inner

/-- A member that is read stores a datum of its type, whether a value is there or not. -/
theorem stored_readMember (hm : m.Constructible) (hdecl : decl ∈ (m.decl e).visible)
    {v? : Option Value}
    (hread : ∀ v, v? = some v → ∀ d, m.decode? decl.type v = some d → m.Stored decl.type d) :
    m.Stored decl.type (m.readMember decl.type v?) := by
  rw [readMember]
  cases hdatum : v?.bind (m.decode? decl.type) with
  | none => exact stored_untouched hm hdecl
  | some d =>
    obtain ⟨v, hv, hdecode⟩ := Option.bind_eq_some_iff.mp hdatum
    exact hread v hv d hdecode

theorem stored_ofRecord_of_read (hm : m.Constructible) (e : m.Ty) {r : Record}
    (hread : ∀ name v, r.get? name = some v →
      ∀ t d, m.decode? t v = some d → m.Stored t d) :
    m.Stored (.entity e) (m.ofRecord e r) := by
  rw [ofRecord, decodeMembers_eq_map]
  refine stored_entity_map fun decl hdecl => ?_
  have hvisible := (List.mem_filter.mp hdecl).2
  rw [Bool.not_eq_true'] at hvisible
  rw [hvisible, if_neg Bool.false_ne_true]
  exact stored_readMember hm hdecl fun v hv => hread _ v hv _

theorem exists_decode?_of_mem {items : List Value} {data : List Datum}
    (h : m.decodeItems? t items = some data) (hd : d ∈ data) :
    ∃ v ∈ items, m.decode? t v = some d := by
  induction items generalizing data with
  | nil =>
    rw [decodeItems?] at h
    cases h
    cases hd
  | cons v items ih =>
    rw [decodeItems?] at h
    obtain ⟨first, hfirst, hrest⟩ := Option.bind_eq_some_iff.mp h
    obtain ⟨others, hothers, rfl⟩ := Option.map_eq_some_iff.mp hrest
    rcases List.mem_cons.mp hd with rfl | hd
    · exact ⟨v, List.mem_cons_self, hfirst⟩
    · obtain ⟨w, hw, hdecode⟩ := ih hothers hd
      exact ⟨w, List.mem_cons_of_mem _ hw, hdecode⟩

/-- Data that are read are data of their type. -/
theorem stored_of_decode? (hm : m.Constructible) {v : Value} (h : m.decode? t v = some d) :
    m.Stored t d := by
  -- items and members are smaller than the value, optional and boxed data have the same value
  induction hsize : sizeOf v using Nat.strong_induction_on generalizing v t d with
  | h size ih =>
    subst hsize
    induction t generalizing d with
    | scalar t =>
      rw [decode?] at h
      exact .scalar (ScalarType.stores_of_decode? h)
    | option t iht =>
      rw [decode?] at h
      split at h
      · cases h
        exact .absent
      · obtain ⟨inner, hinner, rfl⟩ := Option.map_eq_some_iff.mp h
        exact .present (iht hinner)
    | boxed t iht =>
      rw [decode?] at h
      exact .boxed (iht h)
    | list element t =>
      cases v <;> simp only [decode?, reduceCtorEq] at h
      obtain ⟨data, hdata, rfl⟩ := Option.map_eq_some_iff.mp h
      refine .list fun item hitem => ?_
      obtain ⟨w, hw, hdecode⟩ := exists_decode?_of_mem hdata hitem
      have hless := List.sizeOf_lt_of_mem hw
      exact ih (sizeOf w) (by rw [Value.list.sizeOf_spec]; omega) hdecode rfl
    | entity e =>
      cases v <;> simp only [decode?, reduceCtorEq] at h
      cases h
      refine stored_ofRecord_of_read hm e fun name w hw t d hdecode => ?_
      have hless := Record.sizeOf_get? hw
      exact ih (sizeOf w) (by rw [Value.object.sizeOf_spec]; omega) hdecode rfl

/-- An entity that is read from a record stores data of its types. -/
theorem stored_ofRecord (hm : m.Constructible) (e : m.Ty) (r : Record) :
    m.Stored (.entity e) (m.ofRecord e r) :=
  stored_ofRecord_of_read hm e fun _ _ _ _ _ hdecode => stored_of_decode? hm hdecode

end EntityModel

end EntityQuery
