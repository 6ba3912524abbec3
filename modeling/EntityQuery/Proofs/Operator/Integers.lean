import EntityQuery.Proofs.List.Mapping
import EntityQuery.Proofs.Number.Numeral
import EntityQuery.Proofs.Value.Coercion
import EntityQuery.Operator.Basic

/-!
# Integers that are typed in

Raw input of an integer kind is read by its grammar: a numeral with blanks around it, whose number lies
between the bounds of the kind, stands for that number, and nothing else is read. The operators of
membership read such texts between commas; blanks alone are the empty list.

* `Kind.Typed` — the texts of the values of an integer kind.
* `Kind.parse?_eq_bind`, `Kind.parse?_eq_some_iff` — a value is read from its texts and no others.
* `Operator.parseItems?_eq_some_iff` — a list is read from its pieces.
* `Kind.parse_exact` — integers and lists of integers are read by their grammar.
-/

namespace EntityQuery

namespace Kind

/-- Whether numbers of the kind are typed with a minus sign. -/
def hasSign : Kind → Bool
  | .signed _ => true
  | _ => false

/-- A text of a value of an integer kind: a numeral with blanks around it for a number between the
bounds of the kind, which the value denotes. -/
def Typed (k : Kind) (cs : List Char) (v : Value) : Prop :=
  ∃ low high i, k.bounds? = some (low, high) ∧ (low ≤ i ∧ i ≤ high) ∧ Spells k.hasSign cs i ∧
    k.number? v = some i

variable {k : Kind} {raw : String} {v : Value}

/-- An integer kind reads a number from the text without the blanks at its ends. -/
theorem parse?_eq_bind (hk : k.bounds?.isSome) (raw : String) :
    k.parse? raw = (readInteger? k.hasSign (trim raw.toList)).bind k.word? := by
  cases k with
  | signed w => rfl
  | unsigned w =>
    show _ = ((readUnsigned? (trim raw.toList)).map Int.ofNat).bind _
    rw [Option.bind_map]
    rfl
  | _ => cases hk

/-- An integer kind reads its values from their texts and from no others. -/
theorem parse?_eq_some_iff (hk : k.bounds?.isSome) : k.parse? raw = some v ↔ k.Typed raw.toList v := by
  obtain ⟨⟨low, high⟩, hbounds⟩ := Option.isSome_iff_exists.mp hk
  rw [parse?_eq_bind hk, Option.bind_eq_some_iff]
  simp only [readInteger?_trim_eq_some_iff, word?_eq_some_iff hbounds]
  constructor
  · rintro ⟨i, hspells, hbetween, hv⟩
    exact ⟨low, high, i, hbounds, hbetween, hspells, hv⟩
  · rintro ⟨low', high', i, hbounds', hbetween, hspells, hv⟩
    cases hbounds.symm.trans hbounds'
    exact ⟨i, hspells, hbetween, hv⟩

end Kind

namespace Operator

variable {k : Kind} {raw : String} {items : List Value}

/-- A list of integers is read from blanks alone, when it is empty, or from the texts of its items with
commas between them. -/
theorem parseItems?_eq_some_iff (hk : k.bounds?.isSome) :
    parseItems? k raw = some items ↔
      ((∀ c ∈ raw.toList, isBlank c) ∧ items = []) ∨
        ∃ ps, ps ≠ [] ∧ (∀ p ∈ ps, ',' ∉ p) ∧ raw.toList = joinPieces ',' ps ∧
          List.Forall₂ k.Typed ps items := by
  have hitem (p : List Char) (item : Value) :
      parseItem? k (String.ofList p) = some item ↔ k.Typed p item := by
    have htext : k ≠ .text := by
      rintro rfl
      cases hk
    rw [parseItem?, if_neg htext, Kind.parse?_eq_some_iff hk, String.toList_ofList]
  by_cases hblank : ∀ c ∈ raw.toList, isBlank c
  · have hread : parseItems? k raw = some [] := by
      rw [parseItems?, trim_eq_nil.mpr hblank]
      rfl
    rw [hread]
    constructor
    · intro h
      exact .inl ⟨hblank, (Option.some.inj h).symm⟩
    · rintro (⟨-, rfl⟩ | ⟨ps, hsome, -, hraw, hitems⟩)
      · rfl
      · -- the first piece would be the text of an integer without a character of one
        obtain ⟨p, ps, rfl⟩ := List.exists_cons_of_ne_nil hsome
        obtain ⟨item, items, ⟨_, _, i, _, _, hspells, _⟩, -, rfl⟩ :=
          List.forall₂_cons_left_iff.mp hitems
        obtain ⟨c, hc, hvisible⟩ := hspells.exists_not_isBlank
        have hmem : c ∈ raw.toList := hraw ▸ mem_joinPieces List.mem_cons_self hc
        rw [hblank c hmem] at hvisible
        cases hvisible
  · have hvisible : (trim raw.toList).isEmpty = false :=
      List.isEmpty_eq_false_iff.mpr (mt trim_eq_nil.mp hblank)
    rw [parseItems?, hvisible, if_neg Bool.false_ne_true, mapM_eq_some_iff]
    simp only [hitem]
    constructor
    · intro h
      exact .inr ⟨pieces ',' raw.toList, List.cons_ne_nil _ _, fun _ => not_mem_of_mem_pieces,
        (joinPieces_pieces ',' raw.toList).symm, h⟩
    · rintro (⟨h, -⟩ | ⟨ps, hsome, hcomma, hraw, h⟩)
      · exact absurd h hblank
      · rwa [hraw, pieces_joinPieces hsome hcomma]

end Operator

namespace Kind

variable {k : Kind}

/-- Raw input of an integer kind is read by its grammar. A value is read exactly from the texts that
consist of a numeral and blanks around it, the numeral having a minus sign only where the kind is signed
and denoting a number between the bounds of the kind; the value is of the variant of the kind and denotes
this number. The operators of membership read blanks as the empty list, and otherwise a list exactly from
the texts of its items, in their order and with commas between them. -/
theorem parse_exact (hk : k.bounds?.isSome) :
    (∀ raw v, k.parse? raw = some v ↔ k.Typed raw.toList v) ∧
      ∀ negated raw v, (Operator.membership negated).parseRaw? k raw = some v ↔
        ∃ items, v = .list items ∧
          (((∀ c ∈ raw.toList, isBlank c) ∧ items = []) ∨
            ∃ ps, ps ≠ [] ∧ (∀ p ∈ ps, ',' ∉ p) ∧ raw.toList = joinPieces ',' ps ∧
              List.Forall₂ k.Typed ps items) := by
  refine ⟨fun raw v => parse?_eq_some_iff hk, fun negated raw v => ?_⟩
  show (Operator.parseItems? k raw).map Value.list = some v ↔ _
  rw [Option.map_eq_some_iff]
  simp only [Operator.parseItems?_eq_some_iff hk]
  constructor
  · rintro ⟨items, h, rfl⟩
    exact ⟨items, rfl, h⟩
  · rintro ⟨items, rfl, h⟩
    exact ⟨items, h, rfl⟩

/-- The least number of 8 signed bits among blanks, and in a list behind a number with a plus sign. -/
theorem parse_exact_byte :
    (signed .w8).bounds?.isSome ∧ (signed .w8).parse? " -0128 " = some (.int (-128)) ∧
      (Operator.membership true).parseRaw? (signed .w8) "+1, -128" =
        some (.list [.int 1, .int (-128)]) := by
  obtain ⟨hvalue, hlist⟩ := parse_exact (k := signed .w8) rfl
  have hbounds : (signed .w8).bounds? = some (-128, 127) := rfl
  have hblank : ∀ c ∈ [' '], isBlank c := List.forall_mem_singleton.mpr rfl
  refine ⟨rfl, (hvalue _ _).mpr ⟨-128, 127, -128, hbounds, by decide, ?_, rfl⟩,
    (hlist _ _ _).mpr ⟨_, rfl, .inr ⟨[['+', '1'], [' ', '-', '1', '2', '8']], by decide, by decide,
      rfl, .cons ⟨-128, 127, 1, hbounds, by decide, ?_, rfl⟩
        (.cons ⟨-128, 127, -128, hbounds, by decide, ?_, rfl⟩ .nil)⟩⟩⟩
  · exact ⟨[' '], ['-', '0', '1', '2', '8'], [' '], rfl, hblank, hblank,
      .minus rfl ⟨List.cons_ne_nil _ _, List.all_eq_true.mp rfl⟩⟩
  · exact ⟨[], ['+', '1'], [], rfl, List.forall_mem_nil _, List.forall_mem_nil _,
      .plus ⟨List.cons_ne_nil _ _, List.all_eq_true.mp rfl⟩⟩
  · exact ⟨[' '], ['-', '1', '2', '8'], [], rfl, hblank, List.forall_mem_nil _,
      .minus rfl ⟨List.cons_ne_nil _ _, List.all_eq_true.mp rfl⟩⟩

end Kind

end EntityQuery
