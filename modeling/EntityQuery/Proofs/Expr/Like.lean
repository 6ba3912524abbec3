import EntityQuery.Expr.Like
import EntityQuery.Proofs.Text.Regex

/-!
# What patterns describe

Patterns are matched as regular expressions. Said without them, a pattern describes a text when both
can be read together from left to right.

* `Describes` — a pattern describes a text.
* `patternParts` — the parts of the regular expression of a pattern.
* `readRegex?_likeRegex` — every pattern has a regular expression, which is read as its parts.
* `matches_patternParts` — the parts reach the end of a text where the pattern describes the rest.
* `like_iff` — a text matches a pattern that describes it, and no other.
-/

namespace EntityQuery

/-- A pattern describes a text: `%` any run of characters, `_` any one character, a backslash and a
character this character, a backslash at the end itself, and every other character itself. Letters
are compared up to case. -/
inductive Describes : List Char → List Char → Prop
  | empty : Describes [] []
  | anyRun {pattern text : List Char} (run : List Char) (h : Describes pattern text) :
      Describes ('%' :: pattern) (run ++ text)
  | anyOne {pattern text : List Char} (c : Char) (h : Describes pattern text) :
      Describes ('_' :: pattern) (c :: text)
  | escaped {pattern text : List Char} {c d : Char} (hletter : sameLetter c d = true)
      (h : Describes pattern text) : Describes ('\\' :: c :: pattern) (d :: text)
  | trailing : Describes ['\\'] ['\\']
  | plain {pattern text : List Char} {c d : Char} (hc : c ∉ ['%', '_', '\\'])
      (hletter : sameLetter c d = true) (h : Describes pattern text) :
      Describes (c :: pattern) (d :: text)

/-! ### The regular expression of a pattern -/

/-- The parts of the regular expression of a pattern within a text. -/
def patternParts : List Char → List RegexPart
  | [] => []
  | ['\\'] => [.letter '\\']
  | '\\' :: c :: cs => .letter c :: patternParts cs
  | '%' :: cs => .anyRun :: patternParts cs
  | '_' :: cs => .anyOne :: patternParts cs
  | c :: cs => .letter c :: patternParts cs

/-- The notation of a character that stands for itself does not begin with a repetition. -/
theorem head?_escape_append (c : Char) (cs : List Char) : (escape c ++ cs).head? ≠ some '*' := by
  rw [escape]
  split
  next => rintro ⟨⟩
  next h =>
    rintro ⟨⟩
    exact h rfl

/-- Nothing in the expression of a pattern repeats what is in front of the pattern. -/
theorem head?_likeBody_append (pattern : List Char) {cs : List Char} (h : cs.head? ≠ some '*') :
    (likeBody pattern ++ cs).head? ≠ some '*' := by
  fun_cases likeBody pattern with
  | case1 => exact h
  | case2 => exact head?_escape_append _ _
  | case3 c pattern =>
    rw [List.append_assoc]
    exact head?_escape_append _ _
  | case4 => rintro ⟨⟩
  | case5 => rintro ⟨⟩
  | case6 c pattern =>
    rw [List.append_assoc]
    exact head?_escape_append _ _

/-- The expression of a pattern is read as its parts, whatever follows it. -/
theorem readRegex?_likeBody (pattern : List Char) {cs : List Char} (h : cs.head? ≠ some '*') :
    readRegex? (likeBody pattern ++ cs) = (readRegex? cs).map (patternParts pattern ++ ·) := by
  fun_induction likeBody pattern with
  | case1 => exact Option.map_id'.symm
  | case2 => exact readRegex?_escape _ _
  | case3 c pattern ih =>
    rw [List.append_assoc, readRegex?_escape, ih, Option.map_map, patternParts]
    rfl
  | case4 pattern ih =>
    rw [List.cons_append, List.cons_append, readRegex?, ih, Option.map_map, patternParts]
    rfl
  | case5 pattern ih =>
    rw [List.cons_append, readRegex?_dot (head?_likeBody_append pattern h), ih, Option.map_map,
      patternParts]
    rfl
  | case6 c pattern hend hescape hrun hone ih =>
    rw [List.append_assoc, readRegex?_escape, ih, Option.map_map, patternParts]
    · rfl
    all_goals assumption

/-- Every pattern has a regular expression, which is bound to both ends of a text. -/
theorem readRegex?_likeRegex (pattern : List Char) :
    readRegex? (likeRegex pattern) = some (.start :: (patternParts pattern ++ [.finish])) := by
  rw [likeRegex, readRegex?, readRegex?_likeBody pattern (by decide)]
  rfl

example : likeRegex "10\\% (_).%".toList = "^10% \\(.\\)\\..*$".toList := by decide

/-! ### Matching a pattern -/

/-- The parts of a pattern reach the end of a text from a place on where the pattern describes the
rest. -/
theorem matches_patternParts (pattern : List Char) {before rest : List Char} :
    RegexMatches before (patternParts pattern ++ [.finish]) rest ↔ Describes pattern rest := by
  fun_induction patternParts pattern generalizing before rest with
  | case1 =>
    rw [List.nil_append, matches_finish]
    constructor
    · rintro rfl
      exact .empty
    · rintro ⟨⟩
      rfl
  | case2 =>
    constructor
    · intro h
      cases h with
      | letter hletter h =>
        rw [matches_finish.mp h, (sameLetter_meta (by decide) _).mp hletter]
        exact .trailing
    · intro h
      cases h with
      | trailing => exact .letter (sameLetter_self _) (matches_finish.mpr rfl)
      | plain hc _ _ => exact absurd (by decide) hc
  | case3 c pattern ih =>
    constructor
    · intro h
      cases h with
      | letter hletter h => exact .escaped hletter (ih.mp h)
    · intro h
      cases h with
      | escaped hletter h => exact .letter hletter (ih.mpr h)
      | plain hc _ _ => exact absurd (by decide) hc
  | case4 pattern ih =>
    constructor
    · intro h
      cases h with
      | anyRun run h => exact .anyRun run (ih.mp h)
    · intro h
      cases h with
      | anyRun run h => exact .anyRun run (ih.mpr h)
      | plain hc _ _ => exact absurd (by decide) hc
  | case5 pattern ih =>
    constructor
    · intro h
      cases h with
      | anyOne c h => exact .anyOne c (ih.mp h)
    · intro h
      cases h with
      | anyOne c h => exact .anyOne c (ih.mpr h)
      | plain hc _ _ => exact absurd (by decide) hc
  | case6 c pattern hend hescape hrun hone ih =>
    have hc : c ∉ ['%', '_', '\\'] := by
      simp only [List.mem_cons, List.not_mem_nil, or_false, not_or]
      refine ⟨hrun, hone, fun hslash => ?_⟩
      cases pattern with
      | nil => exact hend hslash rfl
      | cons d pattern => exact hescape d pattern hslash rfl
    constructor
    · intro h
      cases h with
      | letter hletter h => exact .plain hc hletter (ih.mp h)
    · intro h
      cases h with
      | plain _ hletter h => exact .letter hletter (ih.mpr h)
      | anyRun => exact absurd (by decide) hc
      | anyOne => exact absurd (by decide) hc
      | escaped => exact absurd (by decide) hc
      | trailing => exact absurd (by decide) hc

/-- A text matches the patterns that describe it, and no others. -/
theorem like_iff (subject pattern : String) :
    like subject pattern = true ↔ Describes pattern.toList subject.toList := by
  rw [like, readRegex?_likeRegex, Option.any_some, regexFound_iff]
  constructor
  · rintro ⟨before, rest, hsubject, h⟩
    cases h with
    | start h =>
      rw [← hsubject]
      exact (matches_patternParts _).mp h
  · intro h
    exact ⟨[], _, rfl, .start ((matches_patternParts _).mpr h)⟩

end EntityQuery
