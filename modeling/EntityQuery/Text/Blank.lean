/-!
# Blanks

White space in the sense of the Unicode standard, and trimming.

* `isBlank` — the twenty-five white space characters.
* `trimStart`, `trim` — a text without the blanks at its start, or at both ends.
* `trim_eq_self`, `trim_cons`, `mem_trim` — what trimming leaves.
* `exists_eq_append_trim`, `trim_append` — what trimming takes away.
-/

namespace EntityQuery

/-- White space of the Unicode standard. -/
def isBlank (c : Char) : Bool :=
  let n := c.toNat
  (9 ≤ n && n ≤ 13) || n == 0x20 || n == 0x85 || n == 0xA0 || n == 0x1680 ||
    (0x2000 ≤ n && n ≤ 0x200A) || n == 0x2028 || n == 0x2029 || n == 0x202F || n == 0x205F ||
    n == 0x3000

/-- Drop leading blanks. -/
def trimStart (cs : List Char) : List Char := cs.dropWhile isBlank

/-- Drop blanks at both ends. -/
def trim (cs : List Char) : List Char := (trimStart (trimStart cs).reverse).reverse

/-- Every ASCII blank is a blank. -/
theorem isBlank_of_isWhitespace {c : Char} (h : c.isWhitespace = true) : isBlank c = true := by
  simp only [Char.isWhitespace, Bool.or_eq_true, decide_eq_true_eq] at h
  rcases h with ((h | h) | h) | h <;> subst h <;> rfl

/-- No digit is a blank. -/
theorem not_isBlank_of_isDigit {c : Char} (h : c.isDigit = true) : isBlank c = false := by
  have range : 48 ≤ c.toNat ∧ c.toNat ≤ 57 := by
    simp only [Char.isDigit, Bool.and_eq_true, decide_eq_true_eq, ge_iff_le] at h
    exact ⟨UInt32.le_iff_toNat_le.1 h.1, UInt32.le_iff_toNat_le.1 h.2⟩
  simp only [isBlank, Bool.or_eq_false_iff, Bool.and_eq_false_iff, decide_eq_false_iff_not,
    beq_eq_false_iff_ne, ne_eq]
  omega

/-- A text that neither starts nor ends with a blank is trimmed already. -/
theorem trim_eq_self {cs : List Char} (first : ∀ c, cs.head? = some c → isBlank c = false)
    (last : ∀ c, cs.getLast? = some c → isBlank c = false) : trim cs = cs := by
  have start (ds : List Char) (h : ∀ c, ds.head? = some c → isBlank c = false) :
      trimStart ds = ds := by
    cases ds with
    | nil => rfl
    | cons d ds => simp [trimStart, h d rfl]
  have back : trimStart cs.reverse = cs.reverse :=
    start _ fun c h => last c (by simpa using h)
  rw [trim, start cs first, back, List.reverse_reverse]

/-- A text without blanks is trimmed already. -/
theorem trim_of_forall {cs : List Char} (h : ∀ c ∈ cs, isBlank c = false) : trim cs = cs :=
  trim_eq_self (fun c hc => h c (List.mem_of_head? hc)) fun c hc => h c (List.mem_of_getLast? hc)

/-- A blank in front does not count. -/
theorem trim_cons {c : Char} (h : isBlank c = true) (cs : List Char) : trim (c :: cs) = trim cs := by
  have start : trimStart (c :: cs) = trimStart cs := List.dropWhile_cons_of_pos h
  rw [trim, trim, start]

theorem mem_trimStart {c : Char} {cs : List Char} (h : c ∈ cs) (hc : isBlank c = false) :
    c ∈ trimStart cs := by
  induction cs with
  | nil => exact nomatch h
  | cons d ds ih =>
    rw [trimStart, List.dropWhile_cons]
    split
    · rename_i hd
      rcases List.mem_cons.1 h with rfl | h
      · rw [hc] at hd
        cases hd
      · exact ih h
    · exact h

/-- Trimming keeps every character that is no blank. -/
theorem mem_trim {c : Char} {cs : List Char} (h : c ∈ cs) (hc : isBlank c = false) :
    c ∈ trim cs :=
  List.mem_reverse.2 (mem_trimStart (List.mem_reverse.2 (mem_trimStart h hc)) hc)

/-- Dropping leading blanks takes away blanks only. -/
theorem exists_eq_append_trimStart (cs : List Char) :
    ∃ before, (∀ c ∈ before, isBlank c) ∧ cs = before ++ trimStart cs :=
  ⟨cs.takeWhile isBlank, fun _ hc => List.all_eq_true.1 List.all_takeWhile _ hc,
    List.takeWhile_append_dropWhile.symm⟩

/-- Trimming takes away blanks only. -/
theorem exists_eq_append_trim (cs : List Char) :
    ∃ before after, (∀ c ∈ before, isBlank c) ∧ (∀ c ∈ after, isBlank c) ∧
      cs = before ++ trim cs ++ after := by
  obtain ⟨before, hbefore, hcs⟩ := exists_eq_append_trimStart cs
  obtain ⟨after, hafter, hback⟩ := exists_eq_append_trimStart (trimStart cs).reverse
  refine ⟨before, after.reverse, hbefore, fun c hc => hafter c (List.mem_reverse.1 hc), ?_⟩
  have hmiddle : trimStart cs = trim cs ++ after.reverse := by
    rw [trim, ← List.reverse_append, ← hback, List.reverse_reverse]
  rw [List.append_assoc, ← hmiddle, ← hcs]

theorem trimStart_append {before cs : List Char} (h : ∀ c ∈ before, isBlank c) :
    trimStart (before ++ cs) = trimStart cs :=
  List.dropWhile_append_of_pos h

/-- Only blanks leave nothing when the leading blanks are dropped. -/
theorem trimStart_eq_nil {cs : List Char} : trimStart cs = [] ↔ ∀ c ∈ cs, isBlank c := by
  constructor
  · intro h
    obtain ⟨before, hbefore, hcs⟩ := exists_eq_append_trimStart cs
    rw [hcs, h, List.append_nil]
    exact hbefore
  · intro h
    rw [← List.append_nil cs, trimStart_append h]
    rfl

/-- Only blanks are trimmed to nothing. -/
theorem trim_eq_nil {cs : List Char} : trim cs = [] ↔ ∀ c ∈ cs, isBlank c := by
  constructor
  · intro h
    obtain ⟨before, after, hbefore, hafter, hcs⟩ := exists_eq_append_trim cs
    rw [hcs, h, List.append_nil]
    exact fun c hc => (List.mem_append.1 hc).elim (hbefore c) (hafter c)
  · intro h
    rw [trim, trimStart_eq_nil.2 h]
    rfl

/-- Blanks around a text without blanks are taken away. -/
theorem trim_append {before cs after : List Char} (hbefore : ∀ c ∈ before, isBlank c)
    (hafter : ∀ c ∈ after, isBlank c) (h : ∀ c ∈ cs, isBlank c = false) :
    trim (before ++ cs ++ after) = cs := by
  have hback : ∀ c ∈ after.reverse, isBlank c := fun c hc => hafter c (List.mem_reverse.1 hc)
  cases cs with
  | nil =>
    rw [trim_eq_nil, List.append_nil]
    exact fun c hc => (List.mem_append.1 hc).elim (hbefore c) (hafter c)
  | cons d ds =>
    have hstart (es : List Char) : trimStart (d :: es) = d :: es :=
      List.dropWhile_cons_of_neg (by simp [h d List.mem_cons_self])
    have hself := trim_of_forall h
    rw [trim, hstart] at hself
    rw [trim, List.append_assoc, trimStart_append hbefore, List.cons_append, hstart,
      ← List.cons_append, List.reverse_append, trimStart_append hback, hself]

end EntityQuery
