import EntityQuery.Text.Regex

/-!
# What regular expressions match

The documented meaning of the parts of an expression, as a relation between the parts and a place of
a text, beside the rows of places that are computed.

* `RegexMatches` — the parts match from a place of a text on.
* `getElem?_matchRow` — a row tells of every place whether the parts match there.
* `regexFound_iff` — an expression is found in a text when it matches at some place.
* `readRegex?_escape`, `readRegex?_dot` — reading the notation of single characters.
* `sameLetter_meta` — characters with a meaning have no case.
-/

namespace EntityQuery

variable {cs : List Char} {after : List Bool} {i : Nat}

/-! ### Rows -/

/-- The end of a text is the place in front of no further character. -/
theorem getElem?_append_false (bs : List Bool) (i : Nat) :
    (bs ++ [false])[i]? = some true ↔ bs[i]? = some true := by
  by_cases h : i < bs.length
  · rw [List.getElem?_append_left h]
  · rw [List.getElem?_append_right (by omega), List.getElem?_eq_none (by omega : bs.length ≤ i)]
    cases i - bs.length <;> simp

/-- There is no true entry where all entries are false. -/
theorem getElem?_map_false (cs : List Char) (i : Nat) :
    (cs.map fun _ => false)[i]? ≠ some true := by
  rw [List.getElem?_map]
  cases cs[i]? with
  | none => rintro ⟨⟩
  | some c => rintro ⟨⟩

/-- An entry of the second row is true when there is a true entry from its place on. -/
theorem getElem?_anyFrom (bs : List Bool) (i : Nat) :
    (anyFrom bs)[i]? = some true ↔ ∃ k : Nat, bs[i + k]? = some true := by
  induction bs generalizing i with
  | nil => simp [anyFrom]
  | cons b bs ih =>
    cases i with
    | zero =>
      have hrest : (anyFrom bs).headD false = true ↔ ∃ k : Nat, bs[k]? = some true := by
        have hfirst := ih 0
        simp only [Nat.zero_add] at hfirst
        rw [← hfirst]
        cases anyFrom bs <;> simp
      rw [anyFrom, List.getElem?_cons_zero, Option.some.injEq, Bool.or_eq_true, hrest]
      constructor
      · rintro (rfl | ⟨k, hk⟩)
        · exact ⟨0, rfl⟩
        · exact ⟨k + 1, by rwa [Nat.zero_add, List.getElem?_cons_succ]⟩
      · rintro ⟨k, hk⟩
        rw [Nat.zero_add] at hk
        cases k with
        | zero => exact Or.inl (Option.some.inj hk)
        | succ k => exact Or.inr ⟨k, hk⟩
    | succ i =>
      rw [anyFrom, List.getElem?_cons_succ, ih]
      refine exists_congr fun k => ?_
      rw [Nat.add_right_comm, List.getElem?_cons_succ]

/-- The start of a text is its first place. -/
theorem getElem?_start : (extendRow cs after .start)[i]? = some true ↔
    i = 0 ∧ after[0]? = some true := by
  cases i with
  | zero => cases after <;> simp [extendRow]
  | succ i =>
    rw [extendRow, List.getElem?_cons_succ]
    exact iff_of_false (getElem?_map_false cs i) fun h => absurd h.1 (Nat.succ_ne_zero i)

/-- The end of a text is its last place. -/
theorem getElem?_finish (h : after.length = cs.length + 1) :
    (extendRow cs after .finish)[i]? = some true ↔ i = cs.length ∧ after[i]? = some true := by
  have hlast : after.getLastD false = true ↔ after[cs.length]? = some true := by
    rw [List.getLastD_eq_getLast?, List.getLast?_eq_getElem?, h, Nat.add_sub_cancel,
      List.getElem?_eq_getElem (by omega)]
    simp
  rw [extendRow]
  obtain hlt | rfl | hgt := Nat.lt_trichotomy i cs.length
  · rw [List.getElem?_append_left (by rwa [List.length_map])]
    exact iff_of_false (getElem?_map_false cs i) fun h => absurd h.1 (Nat.ne_of_lt hlt)
  · rw [List.getElem?_append_right (Nat.le_of_eq (List.length_map _)), List.length_map, Nat.sub_self,
      List.getElem?_cons_zero, Option.some.injEq, hlast]
    exact (and_iff_right rfl).symm
  · refine iff_of_false ?_ fun h => absurd h.1 (Nat.ne_of_gt hgt)
    rw [List.getElem?_eq_none (by rw [List.length_append, List.length_map]; exact hgt)]
    rintro ⟨⟩

/-- One character leads to the next place. -/
theorem getElem?_anyOne :
    (extendRow cs after .anyOne)[i]? = some true ↔ after[i + 1]? = some true := by
  rw [extendRow, getElem?_append_false, List.getElem?_tail]

/-- A letter leads to the next place. -/
theorem getElem?_letter {c : Char} : (extendRow cs after (.letter c))[i]? = some true ↔
    ∃ d, cs[i]? = some d ∧ sameLetter c d = true ∧ after[i + 1]? = some true := by
  rw [extendRow, getElem?_append_false, List.getElem?_map, Option.map_eq_some_iff]
  constructor
  · rintro ⟨⟨d, b⟩, hget, h⟩
    rw [List.getElem?_zip_eq_some, List.getElem?_tail] at hget
    rw [Bool.and_eq_true] at h
    exact ⟨d, hget.1, h.1, by rw [hget.2, h.2]⟩
  · rintro ⟨d, hd, hsame, hafter⟩
    refine ⟨(d, true), ?_, (Bool.and_true _).trans hsame⟩
    rw [List.getElem?_zip_eq_some, List.getElem?_tail]
    exact ⟨hd, hafter⟩

/-! ### Places -/

/-- The parts match from a place of a text on, with the given characters before the place and after
it. -/
inductive RegexMatches : List Char → List RegexPart → List Char → Prop
  | done {before rest : List Char} : RegexMatches before [] rest
  | start {parts : List RegexPart} {rest : List Char} (h : RegexMatches [] parts rest) :
      RegexMatches [] (.start :: parts) rest
  | finish {before : List Char} {parts : List RegexPart} (h : RegexMatches before parts []) :
      RegexMatches before (.finish :: parts) []
  | anyOne {before : List Char} {parts : List RegexPart} {rest : List Char} (c : Char)
      (h : RegexMatches (before ++ [c]) parts rest) : RegexMatches before (.anyOne :: parts) (c :: rest)
  | anyRun {before : List Char} {parts : List RegexPart} {rest : List Char} (run : List Char)
      (h : RegexMatches (before ++ run) parts rest) :
      RegexMatches before (.anyRun :: parts) (run ++ rest)
  | letter {before : List Char} {parts : List RegexPart} {rest : List Char} {c d : Char}
      (hletter : sameLetter c d = true) (h : RegexMatches (before ++ [d]) parts rest) :
      RegexMatches before (.letter c :: parts) (d :: rest)

/-- The end of a text is reached where no character is left. -/
theorem matches_finish {before rest : List Char} :
    RegexMatches before [.finish] rest ↔ rest = [] := by
  constructor
  · rintro (_ | _ | _)
    rfl
  · rintro rfl
    exact .finish .done

/-- A row tells of every place of a text whether the parts match there. -/
theorem getElem?_matchRow (parts : List RegexPart) {before rest : List Char}
    (h : before ++ rest = cs) :
    (matchRow cs parts)[before.length]? = some true ↔ RegexMatches before parts rest := by
  induction parts generalizing before rest with
  | nil =>
    have hplace : before.length < cs.length + 1 := by
      rw [← h, List.length_append]
      omega
    rw [matchRow, List.getElem?_replicate_of_lt hplace]
    exact iff_of_true rfl .done
  | cons part parts ih =>
    have hnext (run others : List Char) (hrest : rest = run ++ others) :
        (matchRow cs parts)[before.length + run.length]? = some true ↔
          RegexMatches (before ++ run) parts others := by
      rw [← List.length_append]
      exact ih (by rw [← h, hrest, List.append_assoc])
    rw [matchRow]
    cases part with
    | start =>
      rw [getElem?_start]
      constructor
      · rintro ⟨hbefore, hrow⟩
        obtain rfl := List.length_eq_zero_iff.mp hbefore
        exact .start ((ih h).mp hrow)
      · rintro (_ | hparts)
        exact ⟨rfl, (ih h).mpr hparts⟩
    | finish =>
      rw [getElem?_finish (length_matchRow cs parts), ih h]
      constructor
      · rintro ⟨hend, hparts⟩
        obtain rfl : rest = [] := by
          rw [← h, List.length_append] at hend
          exact List.length_eq_zero_iff.mp (by omega)
        exact .finish hparts
      · rintro (_ | _ | hparts)
        exact ⟨by rw [← h, List.append_nil], hparts⟩
    | anyOne =>
      rw [getElem?_anyOne]
      cases rest with
      | nil =>
        rw [List.append_nil] at h
        rw [List.getElem?_eq_none (Nat.le_of_eq (by rw [length_matchRow, h]))]
        constructor <;> rintro ⟨⟩
      | cons c rest =>
        have hrow : (matchRow cs parts)[before.length + 1]? = some true ↔
            RegexMatches (before ++ [c]) parts rest := hnext [c] rest rfl
        rw [hrow]
        constructor
        · exact .anyOne c
        · rintro (_ | _ | _ | ⟨_, hparts⟩)
          exact hparts
    | anyRun =>
      rw [extendRow, getElem?_anyFrom]
      constructor
      · rintro ⟨k, hk⟩
        have hplace : before.length + k < (matchRow cs parts).length :=
          (List.getElem?_eq_some_iff.mp hk).1
        rw [length_matchRow, ← h, List.length_append] at hplace
        have hrest : rest = rest.take k ++ rest.drop k := (List.take_append_drop k rest).symm
        have hrun : (rest.take k).length = k := List.length_take_of_le (by omega)
        rw [← hrun, hnext _ _ hrest] at hk
        rw [hrest]
        exact .anyRun _ hk
      · rintro (_ | _ | _ | _ | ⟨run, hparts⟩)
        exact ⟨run.length, (hnext _ _ rfl).mpr hparts⟩
    | letter c =>
      rw [getElem?_letter]
      cases rest with
      | nil =>
        rw [List.append_nil] at h
        rw [h, List.getElem?_eq_none (Nat.le_refl _)]
        constructor
        · rintro ⟨_, ⟨⟩, _⟩
        · rintro ⟨⟩
      | cons d rest =>
        have hd : cs[before.length]? = some d := by
          rw [← h, List.getElem?_append_right (Nat.le_refl _), Nat.sub_self, List.getElem?_cons_zero]
        have hrow : (matchRow cs parts)[before.length + 1]? = some true ↔
            RegexMatches (before ++ [d]) parts rest := hnext [d] rest rfl
        rw [hd, hrow]
        constructor
        · rintro ⟨_, ⟨⟩, hletter, hparts⟩
          exact .letter hletter hparts
        · rintro (_ | _ | _ | _ | _ | ⟨hletter, hparts⟩)
          exact ⟨d, rfl, hletter, hparts⟩

/-- An expression is found in a text when it matches at some place. -/
theorem regexFound_iff (parts : List RegexPart) :
    regexFound cs parts = true ↔
      ∃ before rest, before ++ rest = cs ∧ RegexMatches before parts rest := by
  rw [regexFound, List.contains_iff_mem, List.mem_iff_getElem?]
  constructor
  · rintro ⟨i, hi⟩
    have hplace : i < (matchRow cs parts).length := (List.getElem?_eq_some_iff.mp hi).1
    rw [length_matchRow] at hplace
    have hlength : (cs.take i).length = i := List.length_take_of_le (by omega)
    rw [← hlength] at hi
    exact ⟨_, _, List.take_append_drop i cs,
      (getElem?_matchRow parts (List.take_append_drop i cs)).mp hi⟩
  · rintro ⟨before, rest, hcs, hparts⟩
    exact ⟨before.length, (getElem?_matchRow parts hcs).mpr hparts⟩

/-! ### Reading -/

/-- A character that stands for itself is read as this character. -/
theorem readRegex?_escape (c : Char) (cs : List Char) :
    readRegex? (escape c ++ cs) = (readRegex? cs).map (.letter c :: ·) := by
  rw [escape]
  split
  next h => rw [List.cons_append, List.cons_append, List.nil_append, readRegex?, if_pos h]
  next h =>
    have hmeta {d : Char} (hd : d ∈ metaChars) : c ≠ d := by
      rintro rfl
      exact h (List.contains_iff_mem.mpr hd)
    rw [List.singleton_append, readRegex?, if_neg h]
    · exact hmeta (by decide)
    · exact hmeta (by decide)
    · intro cs h
      exact absurd h (hmeta (by decide))
    · exact hmeta (by decide)
    · intro c cs h
      exact absurd h (hmeta (by decide))

/-- A point that is not repeated is any one character. -/
theorem readRegex?_dot {cs : List Char} (h : cs.head? ≠ some '*') :
    readRegex? ('.' :: cs) = (readRegex? cs).map (.anyOne :: ·) := by
  cases cs with
  | nil => rfl
  | cons c cs =>
    rw [readRegex?]
    rintro cs ⟨⟩
    exact h rfl

/-! ### Letters without case -/

/-- Whether a run neither moves a code point nor moves another one there. -/
def CaseRun.misses (run : CaseRun) (n : Nat) : Bool :=
  let within (first last : Int) : Bool := first ≤ n && n ≤ last
  !within run.first run.last && !within (run.first + run.offset) (run.last + run.offset)

/-- A run that misses a code point does not move it. -/
theorem CaseRun.target?_of_misses {run : CaseRun} {n : Nat} (h : run.misses n = true) :
    run.target? n = none := by
  rw [target?, if_neg]
  rintro ⟨hfirst, hlast, -⟩
  simp [misses, hfirst, hlast] at h

/-- A run that misses a code point moves none there. -/
theorem CaseRun.ne_of_target? {run : CaseRun} {n k k' : Nat} (hn : n ≠ 0) (h : run.misses n = true)
    (hk : run.target? k = some k') : k' ≠ n := by
  rw [target?] at hk
  split at hk
  next hrun =>
    cases hk
    intro hmoved
    have hmisses : ¬(run.first + run.offset ≤ n ∧ (n : Int) ≤ run.last + run.offset) := by
      simp only [misses, Bool.and_eq_true, Bool.not_eq_true', Bool.and_eq_false_iff,
        decide_eq_false_iff_not] at h
      omega
    omega
  next => cases hk

/-- When all runs miss a character, nothing else is mapped to it. -/
theorem mapCase_eq_iff_of_misses {runs : List CaseRun} {c : Char} (hc : c.toNat ≠ 0)
    (h : ∀ run ∈ runs, run.misses c.toNat = true) (d : Char) : mapCase runs d = c ↔ d = c := by
  constructor
  · intro hd
    rw [mapCase] at hd
    split at hd
    next n hn =>
      obtain ⟨run, hrun, htarget⟩ := List.exists_of_findSome?_eq_some hn
      have hmoved : (Char.ofNat n).toNat ≠ c.toNat := by
        by_cases hvalid : n.isValidChar
        · rw [Char.ofNat, dif_pos hvalid]
          exact CaseRun.ne_of_target? hc (h run hrun) htarget
        · rw [Char.ofNat, dif_neg hvalid]
          exact hc.symm
      exact absurd (congrArg Char.toNat hd) hmoved
    next => exact hd
  · rintro rfl
    exact mapCase_of_none (List.findSome?_eq_none_iff.mpr fun run hrun =>
      CaseRun.target?_of_misses (h run hrun))

/-- The characters with a meaning of their own have no case. -/
theorem sameLetter_meta {c : Char} (h : c ∈ metaChars) (d : Char) :
    sameLetter c d = true ↔ d = c := by
  have hmisses : (metaChars.all fun c =>
      c.toNat != 0 && foldRuns.all fun run => run.misses c.toNat) = true := by
    decide +kernel
  have hchar := List.all_eq_true.mp hmisses c h
  rw [Bool.and_eq_true, bne_iff_ne, List.all_eq_true] at hchar
  obtain ⟨hc, hruns⟩ := hchar
  rw [sameLetter, beq_iff_eq, foldCase, foldCase, (mapCase_eq_iff_of_misses hc hruns c).mpr rfl,
    eq_comm]
  exact mapCase_eq_iff_of_misses hc hruns d

end EntityQuery
