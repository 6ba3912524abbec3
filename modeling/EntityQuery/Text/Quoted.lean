import EntityQuery.Text.Hidden

/-!
# Quoted texts

A text between double quotes, as it is shown in expressions. Quotes and backslashes are escaped,
common controls have a short escape, and characters without a glyph are shown by their code point
in hexadecimal.

* `escapeChar` — the written form of one character.
* `quoted` — the written form of a text.
-/

namespace EntityQuery

/-- The written form of one character of a quoted text. -/
def escapeChar (c : Char) : List Char :=
  if c = '\t' then ['\\', 't']
  else if c = '\r' then ['\\', 'r']
  else if c = '\n' then ['\\', 'n']
  else if c.toNat = 0 then ['\\', '0']
  else if c = '\\' then ['\\', '\\']
  else if c = '"' then ['\\', '"']
  else if isHidden c then ['\\', 'u', '\x7b'] ++ Nat.toDigits 16 c.toNat ++ ['\x7d']
  else [c]

/-- The written form of a text, between double quotes. -/
def quoted (s : String) : String :=
  "\"" ++ String.ofList (s.toList.flatMap escapeChar) ++ "\""

/-- A character between the digits and the small letters is written as it is, the backslash
apart. -/
theorem escapeChar_eq_self {c : Char} (h : 48 ≤ c.toNat ∧ c.toNat ≤ 122 ∧ c.toNat ≠ 92) :
    escapeChar c = [c] := by
  have differs (d : Char) (hd : ¬(48 ≤ d.toNat ∧ d.toNat ≤ 122 ∧ d.toNat ≠ 92)) : c ≠ d :=
    fun e => hd (e ▸ h)
  have shown : isHidden c = false := isHidden_of_ascii ⟨by omega, by omega⟩
  have nonzero : c.toNat ≠ 0 := by omega
  simp only [escapeChar, differs '\t' (by decide), differs '\r' (by decide),
    differs '\n' (by decide), differs '\\' (by decide), differs '"' (by decide), shown, nonzero,
    if_false, Bool.false_eq_true]

end EntityQuery
