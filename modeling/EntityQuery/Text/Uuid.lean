import EntityQuery.Number.Digits

/-!
# Universally unique identifiers

Identifiers of 128 bits, written as 32 hexadecimal digits.

* `Uuid.text` — lower-case digits in groups of 8, 4, 4, 4 and 12.
* `Uuid.ofText?` — reading grouped or ungrouped digits; the grouped form may stand in braces or
  after `urn:uuid:`.
-/

namespace EntityQuery

/-- An identifier of 128 bits. -/
structure Uuid where
  value : BitVec 128
  deriving DecidableEq, Inhabited

namespace Uuid

/-- The identifier of zeros. -/
def nil : Uuid := ⟨0⟩

/-- The order of the digits. -/
def compare (a b : Uuid) : Ordering := Ord.compare a.value.toNat b.value.toNat

/-- The last `count` hexadecimal digits of a number. -/
def hexDigits : Nat → Nat → List Char
  | 0, _ => []
  | count + 1, n => hexDigits count (n / 16) ++ [Nat.digitChar (n % 16)]

/-- Lower-case digits in groups of 8, 4, 4, 4 and 12. -/
def text (u : Uuid) : String :=
  let n := u.value.toNat
  String.ofList (hexDigits 8 (n / 16 ^ 24) ++ '-' :: hexDigits 4 (n / 16 ^ 20) ++
    '-' :: hexDigits 4 (n / 16 ^ 16) ++ '-' :: hexDigits 4 (n / 16 ^ 12) ++ '-' :: hexDigits 12 n)

/-! ### Reading -/

/-- The value of a hexadecimal digit in either case. -/
def hexValue? (c : Char) : Option Nat :=
  if '0' ≤ c ∧ c ≤ '9' then some (c.toNat - '0'.toNat)
  else if 'a' ≤ c ∧ c ≤ 'f' then some (c.toNat - 'a'.toNat + 10)
  else if 'A' ≤ c ∧ c ≤ 'F' then some (c.toNat - 'A'.toNat + 10)
  else none

/-- Thirty-two hexadecimal digits. -/
def ofDigits? (cs : List Char) : Option Uuid := do
  let digits ← cs.mapM hexValue?
  if digits.length = 32 then
    return ⟨BitVec.ofNat 128 (digits.foldl (fun n d => n * 16 + d) 0)⟩
  else none

/-- Digits in groups of 8, 4, 4, 4 and 12. -/
def ofGroups? (cs : List Char) : Option Uuid :=
  let isHyphen (i : Nat) : Bool := cs[i]? == some '-'
  if cs.length = 36 && isHyphen 8 && isHyphen 13 && isHyphen 18 && isHyphen 23 then
    ofDigits? (cs.filter (· != '-'))
  else none

/-- Read an identifier in any of its forms. -/
def ofText? (cs : List Char) : Option Uuid :=
  match cs.length with
  | 32 => ofDigits? cs
  | 36 => ofGroups? cs
  | 38 =>
    if cs.head? == some '\x7b' && cs.getLast? == some '\x7d' then ofGroups? (cs.drop 1).dropLast
    else none
  | 45 => if (cs.take 9).map Char.toLower = "urn:uuid:".toList then ofGroups? (cs.drop 9) else none
  | _ => none

/-- Swapping the arguments of a comparison reverses the answer. -/
theorem compare_swap (a b : Uuid) : (a.compare b).swap = b.compare a :=
  Std.OrientedOrd.eq_swap.symm

/-- Two identifiers compare equal only when they are the same. -/
theorem eq_of_compare_eq {a b : Uuid} (h : a.compare b = .eq) : a = b := by
  simp only [compare, Std.LawfulEqOrd.compare_eq_iff_eq] at h
  cases a
  cases b
  simpa [BitVec.toNat_inj] using h

end Uuid

end EntityQuery
