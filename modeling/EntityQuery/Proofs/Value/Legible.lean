import EntityQuery.Proofs.Value.Coercion
import EntityQuery.Value.Text

/-!
# Values that are read as they are shown

A value of a legible kind, as it is shown for people, is a text that denotes the value: truth values,
integers and texts, and names of enumerations that do not depend on case.

* `Kind.IsItemText` — texts that a raw list can have between its commas.
* `Kind.Legible` — kinds whose values are read as they are shown.
* `Kind.isItemText_plain` — the values of a legible kind, texts apart, can be items of a raw list.
* `Kind.parse?_plain` — a value of a legible kind is read as it is shown.
-/

namespace EntityQuery

namespace Kind

/-- A text without blanks at its ends and without commas. -/
def IsItemText (s : String) : Prop := trim s.toList = s.toList ∧ ',' ∉ s.toList

/-- Kinds whose values are read as they are shown. The names of an enumeration have no blanks at their
ends and no commas, and differ in more than the case of ASCII letters. -/
def Legible : Kind → Prop
  | .bool | .signed _ | .unsigned _ | .text => True
  | .enum _ variants => (∀ name ∈ variants, IsItemText name) ∧
      variants.Pairwise fun a b => sameAscii a.toList b.toList = false
  | _ => False

variable {k : Kind} {v : Value}

/-! ### Integers -/

theorem toList_integerText (i : Int) : (integerText i).toList = integerDigits i :=
  String.toList_ofList

theorem isItemText_integerText (i : Int) : IsItemText (integerText i) := by
  rw [IsItemText, toList_integerText]
  constructor
  · refine trim_of_forall fun c hc => ?_
    obtain hdigit | rfl := isDigit_or_eq_minus hc
    · exact not_isBlank_of_isDigit hdigit
    · decide
  · intro hcomma
    exact absurd (isDigit_or_eq_minus hcomma) (by decide)

/-- A signed kind reads the text of an integer as the value for this number. -/
theorem parse?_signed_integerText (w : Width) (i : Int) :
    (signed w).parse? (integerText i) = (signed w).word? i := by
  have hread : readSigned? (trim (integerText i).toList) = some i := by
    rw [(isItemText_integerText i).1, toList_integerText, readSigned?_integerDigits]
  show (readSigned? (trim (integerText i).toList)).bind (signed w).word? = _
  rw [hread, Option.bind_some]

/-- An unsigned kind reads the text of a natural number as the value for this number. -/
theorem parse?_unsigned_integerText (w : Width) (n : Nat) :
    (unsigned w).parse? (integerText n) = (unsigned w).word? n := by
  have hread : readUnsigned? (trim (integerText n).toList) = some n := by
    rw [(isItemText_integerText n).1, toList_integerText]
    exact readUnsigned?_of_readNat? (readNat?_toDigits n)
  show (readUnsigned? (trim (integerText n).toList)).bind (fun m => (unsigned w).word? m) = _
  rw [hread, Option.bind_some]

/-! ### Names of enumerations -/

theorem sameAscii_self (cs : List Char) : sameAscii cs cs = true := beq_iff_eq.mpr rfl

/-- Among names that differ in more than case a name finds itself. -/
theorem find?_sameAscii {variants : List String} {name : String} (h : name ∈ variants)
    (hdistinct : variants.Pairwise fun a b => sameAscii a.toList b.toList = false) :
    variants.find? (fun v => sameAscii v.toList name.toList) = some name := by
  induction variants with
  | nil => cases h
  | cons first others ih =>
    obtain ⟨hfirst, hothers⟩ := List.pairwise_cons.mp hdistinct
    rcases List.mem_cons.mp h with rfl | h
    · exact List.find?_cons_of_pos (sameAscii_self _)
    · rw [List.find?_cons_of_neg (by rw [hfirst name h]; exact Bool.false_ne_true)]
      exact ih h hothers

/-! ### Values of legible kinds -/

/-- The values of a legible kind can be items of a raw list. Texts can if they have no blanks at their
ends and no commas. -/
theorem isItemText_plain (hk : k.Legible) (h : k.accepts v) (htext : k = text → IsItemText v.plain) :
    IsItemText v.plain := by
  cases k with
  | bool =>
    cases v with
    | bool b => cases b <;> exact ⟨by decide, by decide⟩
    | _ => cases h
  | signed w =>
    cases v with
    | int i => exact isItemText_integerText i.toInt
    | _ => cases h
  | unsigned w =>
    cases v with
    | uint n => exact isItemText_integerText n.toNat
    | _ => cases h
  | text => exact htext rfl
  | enum _ variants =>
    cases v with
    | enum name => exact hk.1 name (List.contains_iff_mem.mp h)
    | _ => cases h
  | _ => exact hk.elim

/-- A value of a legible kind is read as it is shown. -/
theorem parse?_plain (hk : k.Legible) (h : k.accepts v) : k.parse? v.plain = some v := by
  cases k with
  | bool =>
    cases v with
    | bool b => cases b <;> rfl
    | _ => cases h
  | signed w =>
    cases v with
    | int i => exact (parse?_signed_integerText w i.toInt).trans (word?_of_accepts h rfl)
    | _ => cases h
  | unsigned w =>
    cases v with
    | uint n => exact (parse?_unsigned_integerText w n.toNat).trans (word?_of_accepts h rfl)
    | _ => cases h
  | text =>
    cases v with
    | text s => rfl
    | _ => cases h
  | enum _ variants =>
    cases v with
    | enum name =>
      have hmem : name ∈ variants := List.contains_iff_mem.mp h
      show (variants.find? fun v => sameAscii v.toList (trim name.toList)).map Value.enum = _
      rw [(hk.1 name hmem).1, find?_sameAscii hmem hk.2, Option.map_some]
    | _ => cases h
  | _ => exact hk.elim

end Kind

end EntityQuery
