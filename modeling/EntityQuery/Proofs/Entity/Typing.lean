import Mathlib.Tactic.Common
import EntityQuery.Entity.Codec

/-!
# Typed data

The data that a member of a type can store, and what becomes of them when they travel as values.

* `ScalarType.Admits` — the data of a scalar type.
* `EntityModel.Typed` — the data of a stored type.
* `EntityModel.Supported` — models whose members keep apart what they store.
* `ScalarType.decode?_encode` — a scalar datum comes back from its value.
* `EntityModel.decode?_encode` — so does the datum of a member that is a scalar in the schema.
* `EntityModel.encode_object` — a datum of a member that is an object in the schema.
-/

namespace EntityQuery

/-! ### Data of scalar types -/

namespace ScalarType

/-- The data of a scalar type. A wide integer is inside the range of 64 bits, and a narrow
floating-point number is not changed by narrowing. -/
def Admits : ScalarType → Datum → Prop
  | .wide true, .integer i => Kind.fitsSigned .w64 i
  | .wide false, .integer i => Kind.fitsUnsigned .w64 i
  | .char, .char _ => True
  | .ofKind .bool, .bool _ => True
  | .ofKind (.signed w), .integer i => Kind.fitsSigned w i
  | .ofKind (.unsigned w), .integer i => Kind.fitsUnsigned w i
  | .ofKind .single, .float x => Kind.fitsSingle x ∧ x.toSingle = x
  | .ofKind .double, .float _ => True
  | .ofKind .decimal, .decimal _ => True
  | .ofKind .text, .text _ => True
  | .ofKind .date, .date _ => True
  | .ofKind .dateTime, .dateTime _ => True
  | .ofKind .timestamp, .timestamp _ => True
  | .ofKind .time, .time _ => True
  | .ofKind .uuid, .uuid _ => True
  | .ofKind (.enum _ variants), .variant name => name ∈ variants
  | _, _ => False

theorem fitsSigned_iff {w : Width} {i : Int} :
    Kind.fitsSigned w i ↔ -(2 ^ (w.bits - 1) : Int) ≤ i ∧ i < (2 ^ (w.bits - 1) : Int) := by
  rw [Kind.fitsSigned, Bool.and_eq_true, decide_eq_true_eq, decide_eq_true_eq]

theorem fitsUnsigned_iff {w : Width} {i : Int} :
    Kind.fitsUnsigned w i ↔ 0 ≤ i ∧ i < (2 ^ w.bits : Int) := by
  rw [Kind.fitsUnsigned, Bool.and_eq_true, decide_eq_true_eq, decide_eq_true_eq]

/-- What fits a width fits 64 bits. -/
theorem fitsSigned_wide {w : Width} {i : Int} (h : Kind.fitsSigned w i) :
    Kind.fitsSigned .w64 i := by
  rw [fitsSigned_iff] at h ⊢
  cases w <;> simp only [Width.bits] at h ⊢ <;> omega

theorem fitsUnsigned_wide {w : Width} {i : Int} (h : Kind.fitsUnsigned w i) :
    Kind.fitsUnsigned .w64 i := by
  rw [fitsUnsigned_iff] at h ⊢
  cases w <;> simp only [Width.bits] at h ⊢ <;> omega

/-- An integer of 64 bits comes back from its value. -/
theorem integer?_integerValue {signed : Bool} {i : Int}
    (h : if signed then Kind.fitsSigned .w64 i else Kind.fitsUnsigned .w64 i) :
    Kind.integer? (integerValue signed i) = some i := by
  cases signed with
  | true =>
    have hfits : Kind.fitsSigned .w64 i = true := h
    have hi : (Int64.ofInt i).toInt = i := by
      obtain ⟨hlow, hhigh⟩ := fitsSigned_iff.mp h
      simp only [Width.bits] at hlow hhigh
      exact Int64.toInt_ofInt_of_le (by omega) (by omega)
    simp only [integerValue, if_true, hfits, Kind.integer?, hi]
  | false =>
    have hfits : Kind.fitsUnsigned .w64 i = true := h
    have hi : ((UInt64.ofNat i.toNat).toNat : Int) = i := by
      obtain ⟨hlow, hhigh⟩ := fitsUnsigned_iff.mp h
      simp only [Width.bits] at hhigh
      rw [UInt64.toNat_ofNat_of_lt' (by rw [UInt64.size]; omega)]
      omega
    simp only [integerValue, Bool.false_eq_true, if_false, hfits, if_true, Kind.integer?, hi]

/-- A scalar datum comes back from its value. -/
theorem decode?_encode {t : ScalarType} {d : Datum} (h : t.Admits d) :
    t.decode? (t.encode d) = some d := by
  cases t with
  | wide signed =>
    cases d <;> try (cases signed <;> exact h.elim)
    rename_i i
    cases signed with
    | true =>
      have hi : Kind.integer? (integerValue true i) = some i := integer?_integerValue h
      simp [encode, decode?, hi]
    | false =>
      have hi : Kind.integer? (integerValue false i) = some i := integer?_integerValue h
      have hnat : 0 ≤ i := (fitsUnsigned_iff.mp h).1
      simp [encode, decode?, hi, hnat]
  | char =>
    cases d <;> try exact h.elim
    rename_i c
    simp [encode, decode?, singleChar?]
  | ofKind k =>
    cases k <;> cases d <;> (try exact h.elim) <;> (try rfl)
    case signed.integer w i =>
      have hfits : Kind.fitsSigned w i = true := h
      have hi : Kind.integer? (integerValue true i) = some i :=
        integer?_integerValue (fitsSigned_wide h)
      simp [encode, decode?, hi, hfits]
    case unsigned.integer w i =>
      have hfits : Kind.fitsUnsigned w i = true := h
      have hi : Kind.integer? (integerValue false i) = some i :=
        integer?_integerValue (fitsUnsigned_wide h)
      simp [encode, decode?, hi, hfits]
    case single.float x =>
      have hcoerce : Kind.single.coerce? (.float x) = some (.float x) :=
        Kind.coerce?_of_accepts h.1
      simp only [encode, decode?, hcoerce, h.2]
    case enum.variant name variants v =>
      have hv : v ∈ variants := h
      simp [encode, decode?, Value.asText?, hv]

/-- The value of a scalar datum is not null: no datum is read from null. -/
theorem encode_ne_null {t : ScalarType} {d : Datum} (h : t.Admits d) : t.encode d ≠ .null := by
  intro hnull
  have hback := decode?_encode h
  rw [hnull, decode?_null] at hback
  cases hback

end ScalarType

/-! ### Data of stored types -/

namespace MemberType

variable {n : Nat}

/-- Whether a type has nothing as one of its data. -/
def isOptional : MemberType n → Bool
  | .option _ => true
  | .boxed t => t.isOptional
  | _ => false

/-- Whether no option is in an option: nothing at all and nothing inside would be one value. What a
list holds does not matter. -/
def isSupported : MemberType n → Bool
  | .option t => !t.isOptional && t.isSupported
  | .boxed t => t.isSupported
  | _ => true

end MemberType

namespace EntityModel

/-- The data of a type. -/
inductive Typed (m : EntityModel) : MemberType m.size → Datum → Prop where
  | scalar {t : ScalarType} {d : Datum} : t.Admits d → Typed m (.scalar t) d
  | absent {t : MemberType m.size} : Typed m (.option t) .absent
  | present {t : MemberType m.size} {d : Datum} : Typed m t d → Typed m (.option t) (.present d)
  | boxed {t : MemberType m.size} {d : Datum} : Typed m t d → Typed m (.boxed t) d
  | list {element : String} {t : MemberType m.size} {items : List Datum} :
      (∀ d ∈ items, Typed m t d) → Typed m (.list element t) (.list items)
  | entity {e : m.Ty} {members : List Datum} :
      members.length = (m.decl e).members.length →
      (∀ x ∈ (m.decl e).members.zip members, Typed m x.1.type x.2) →
      Typed m (.entity e) (.entity members)

/-- Models whose visible members have names that make up paths, differ within a type, and keep apart
what they store. -/
structure Supported (m : EntityModel) : Prop where
  named : ∀ e, ∀ d ∈ (m.decl e).visible, d.name ≠ "" ∧ '.' ∉ d.name.toList
  distinct : ∀ e, ((m.decl e).visible.map (·.name)).Nodup
  apart : ∀ e, ∀ d ∈ (m.decl e).visible, d.type.isSupported

variable {m : EntityModel} {t : MemberType m.size} {d : Datum}

theorem encode_absent (t : MemberType m.size) : m.encode (.option t) .absent = .null := by
  rw [encode]
  intro d h
  cases h

theorem decode?_absent (t : MemberType m.size) : m.decode? (.option t) .null = some .absent := by
  rw [decode?]
  rfl

/-- Only nothing has a null value. -/
theorem encode_ne_null (h : m.Typed t d) (ht : t.isOptional = false) : m.encode t d ≠ .null := by
  induction h with
  | scalar hd =>
    rw [encode]
    exact ScalarType.encode_ne_null hd
  | absent | present => cases ht
  | boxed _ ih =>
    rw [encode]
    exact ih ht
  | list | entity => simp [encode]

/-- An optional datum that is there has the value of what it holds, and comes back from it. -/
theorem decode?_option {v : Value} (hv : v ≠ .null) :
    m.decode? (.option t) v = (m.decode? t v).map .present := by
  rw [decode?]
  cases v <;> first | rfl | exact absurd rfl hv

/-- The datum of a member that is a scalar in the schema comes back from its value. -/
theorem decode?_encode (h : m.Typed t d) (ht : t.isSupported) (hscalar : t.typeRef.isScalar) :
    m.decode? t (m.encode t d) = some d := by
  induction h with
  | scalar hd =>
    rw [encode, decode?]
    exact ScalarType.decode?_encode hd
  | absent => rw [encode_absent, decode?_absent]
  | @present t d hd ih =>
    rw [MemberType.isSupported, Bool.and_eq_true, Bool.not_eq_true'] at ht
    have hinner : t.typeRef.isScalar = true := by
      rw [MemberType.typeRef] at hscalar
      cases href : t.typeRef <;> rw [href] at hscalar <;> first | rfl | cases hscalar
    rw [encode, decode?_option (encode_ne_null hd ht.1), ih ht.2 hinner, Option.map_some]
  | boxed _ ih =>
    rw [encode, decode?]
    exact ih ht hscalar
  | list | entity => cases hscalar

/-- A datum of a member that is an object in the schema is nothing, or else an entity; an entity of
any record can take its place. -/
theorem encode_object {target : m.Ty} {nullable : Bool} (h : m.Typed t d) (ht : t.isSupported)
    (hobject : t.typeRef = .object target nullable) :
    (m.encode t d = .null ∧ ∃ d', m.decode? t .null = some d' ∧ m.encode t d' = .null) ∨
      ∃ members, m.Typed (.entity target) (.entity members) ∧
        m.encode t d = .object (m.toRecord target (.entity members)) ∧
        ∀ r, ∃ d', m.decode? t (.object r) = some d' ∧
          m.encode t d' = .object (m.toRecord target (m.ofRecord target r)) := by
  induction h generalizing nullable with
  | scalar | list => cases hobject
  | absent =>
    left
    exact ⟨encode_absent _, .absent, decode?_absent _, encode_absent _⟩
  | @present t d hd ih =>
    right
    rw [MemberType.isSupported, Bool.and_eq_true, Bool.not_eq_true'] at ht
    obtain ⟨nullable', hinner⟩ : ∃ nullable', t.typeRef = .object target nullable' := by
      rw [MemberType.typeRef] at hobject
      cases href : t.typeRef <;> rw [href] at hobject <;> cases hobject
      exact ⟨_, rfl⟩
    obtain ⟨hnull, -⟩ | ⟨members, hmembers, hencode, hback⟩ := ih ht.2 hinner
    · exact absurd hnull (encode_ne_null hd ht.1)
    · refine ⟨members, hmembers, by rw [encode, hencode], ?_⟩
      intro r
      obtain ⟨d', hd', hencode'⟩ := hback r
      refine ⟨.present d', ?_, by rw [encode, hencode']⟩
      have hobject : Value.object r ≠ .null := by
        intro h
        cases h
      rw [decode?_option hobject, hd', Option.map_some]
  | boxed _ ih =>
    simp only [encode, decode?]
    exact ih ht hobject
  | @entity e members hlength hmembers =>
    cases hobject
    right
    refine ⟨members, .entity hlength hmembers, by rw [encode, toRecord], ?_⟩
    intro r
    exact ⟨m.ofRecord target r, by rw [decode?, ofRecord], by rw [ofRecord, encode, toRecord]⟩

end EntityModel

end EntityQuery
