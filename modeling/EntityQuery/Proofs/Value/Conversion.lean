import EntityQuery.Proofs.Entity.Storing

/-!
# Values that kinds make

A kind makes values of its own in three ways: by conversion, from a text, and as the value of an
untouched member. What it makes is one of its values, except that an enumeration without variants is
untouched as null.

* `Kind.accepts_of_coerce?` — values that are converted.
* `Kind.accepts_of_parse?` — values that are read.
* `Kind.zero_eq_null_or_accepts` — values of untouched members.
-/

namespace EntityQuery

namespace Kind

variable {k : Kind} {v w : Value}

theorem accepts_int {width : Width} {i : Int} (h : fitsSigned width i) :
    (signed width).accepts (.int (Int64.ofInt i)) := by
  have haccepts := ScalarType.accepts_signed h
  rwa [ScalarType.integerValue, if_pos rfl, if_pos (ScalarType.fitsSigned_wide h)] at haccepts

theorem accepts_uint {width : Width} {i : Int} (h : fitsUnsigned width i) :
    (unsigned width).accepts (.uint (UInt64.ofNat i.toNat)) := by
  have haccepts := ScalarType.accepts_unsigned h
  rwa [ScalarType.integerValue, if_neg Bool.false_ne_true,
    if_pos (ScalarType.fitsUnsigned_wide h)] at haccepts

/-- A member holds every value of its kind, nullable or not. -/
theorem assignable_of_accepts {nullable : Bool} (h : k.accepts v) : k.assignable nullable v := by
  cases v with
  | null => exact absurd h (by rw [accepts_null]; exact Bool.false_ne_true)
  | _ => exact h

theorem zero_eq_null_or_accepts (k : Kind) : k.zero = .null ∨ k.accepts k.zero := by
  cases k with
  | signed width => exact Or.inr (by cases width <;> decide)
  | unsigned width => exact Or.inr (by cases width <;> decide)
  | single =>
    have hfits : fitsSingle .zero := decide_eq_true (Nat.zero_le _)
    exact Or.inr hfits
  | enum name variants =>
    cases variants with
    | nil => exact Or.inl rfl
    | cons first rest => exact Or.inr (List.contains_iff_mem.mpr List.mem_cons_self)
  | _ => exact Or.inr rfl

/-- What a text denotes is a value of the kind. -/
theorem accepts_of_parse? {raw : String} (h : k.parse? raw = some v) : k.accepts v := by
  cases k with
  | text =>
    cases h
    rfl
  | signed width =>
    obtain ⟨i, -, hi⟩ := Option.bind_eq_some_iff.mp h
    obtain ⟨hfits, hv⟩ := Option.ite_none_right_eq_some.mp hi
    cases hv
    exact accepts_int hfits
  | unsigned width =>
    obtain ⟨n, -, hn⟩ := Option.bind_eq_some_iff.mp h
    obtain ⟨hfits, hv⟩ := Option.ite_none_right_eq_some.mp hn
    cases hv
    have haccepts := accepts_uint hfits
    rwa [Int.toNat_natCast] at haccepts
  | single =>
    obtain ⟨x, -, hx⟩ := Option.bind_eq_some_iff.mp h
    obtain ⟨hfits, hv⟩ := Option.ite_none_right_eq_some.mp hx
    cases hv
    exact hfits
  | enum name variants =>
    obtain ⟨variant, hfind, rfl⟩ := Option.map_eq_some_iff.mp h
    exact List.contains_iff_mem.mpr (List.mem_of_find?_eq_some hfind)
  | _ =>
    -- the other kinds have all values of one variant
    obtain ⟨x, -, rfl⟩ := Option.map_eq_some_iff.mp h
    rfl

/-- What is converted into a kind is a value of the kind. -/
theorem accepts_of_coerce? (h : k.coerce? v = some w) : k.accepts w := by
  have hcoerce := h
  unfold coerce? at h
  split at h
  next haccepts =>
    cases h
    exact haccepts
  next =>
    split at h
    case h_1 width n =>
      obtain ⟨hfits, hw⟩ := Option.ite_none_right_eq_some.mp h
      cases hw
      rw [← Int64.ofInt_eq_ofNat]
      exact accepts_int hfits
    case h_2 width i =>
      obtain ⟨hfits, hw⟩ := Option.ite_none_right_eq_some.mp h
      cases hw
      exact accepts_uint hfits
    case h_3 | h_5 =>
      cases h
      exact fitsSingle_of_coerce? hcoerce
    case h_9 x =>
      obtain ⟨d, -, rfl⟩ := Option.map_eq_some_iff.mp h
      rfl
    case h_11 s => exact accepts_of_parse? h
    case h_13 => cases h
    all_goals
      -- the kind has all values of one variant
      cases h
      rfl

end Kind

end EntityQuery
