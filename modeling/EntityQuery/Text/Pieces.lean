/-!
# Pieces of a text

Cutting a text at every occurrence of a separator, and putting the pieces together again.

* `cut` — the first piece and the others; a text without the separator is one piece.
* `pieces` — all pieces, never none.
* `joinPieces` — the pieces with the separator between them.
* `segments` — the names between the dots of a dotted name.
* `pieces_append` — the pieces of two texts around a separator.
* `joinPieces_pieces` — the pieces of a text make up the text.
-/

namespace EntityQuery

/-- Cut a text at every separator: the first piece, and the others. -/
def cut (sep : Char) : List Char → List Char × List (List Char)
  | [] => ([], [])
  | c :: cs =>
    let (first, others) := cut sep cs
    if c = sep then ([], first :: others) else (c :: first, others)

/-- The pieces of a text between separators. -/
def pieces (sep : Char) (cs : List Char) : List (List Char) := (cut sep cs).1 :: (cut sep cs).2

/-- Pieces with a separator between them. -/
def joinPieces (sep : Char) : List (List Char) → List Char
  | [] => []
  | [piece] => piece
  | piece :: others => piece ++ sep :: joinPieces sep others

theorem joinPieces_cons_cons (sep : Char) (p q : List Char) (ps : List (List Char)) :
    joinPieces sep (p :: q :: ps) = p ++ sep :: joinPieces sep (q :: ps) := rfl

/-- A character in front of the first piece is in front of the join. -/
theorem joinPieces_cons (sep c : Char) (p : List Char) (ps : List (List Char)) :
    joinPieces sep ((c :: p) :: ps) = c :: joinPieces sep (p :: ps) := by
  cases ps <;> rfl

/-- The names between the dots of a dotted name. -/
def segments (name : String) : List String := (pieces '.' name.toList).map String.ofList

/-- The characters of the pieces are in the join. -/
theorem mem_joinPieces {sep c : Char} {p : List Char} {ps : List (List Char)} (hp : p ∈ ps)
    (hc : c ∈ p) : c ∈ joinPieces sep ps := by
  induction ps with
  | nil => exact nomatch hp
  | cons q ps ih =>
    cases ps with
    | nil => rwa [List.mem_singleton.1 hp] at hc
    | cons r ps =>
      rw [joinPieces_cons_cons]
      rcases List.mem_cons.1 hp with rfl | hp
      · exact List.mem_append_left _ hc
      · exact List.mem_append_right _ (List.mem_cons_of_mem _ (ih hp))

/-- A dotted name from its segments. -/
def dotted (names : List String) : String := String.ofList (joinPieces '.' (names.map String.toList))

/-- The pieces of two texts around a separator are the pieces of both. -/
theorem pieces_append (sep : Char) (a b : List Char) :
    pieces sep (a ++ sep :: b) = pieces sep a ++ pieces sep b := by
  induction a with
  | nil => simp [pieces, cut]
  | cons c a ih =>
    simp only [pieces, List.cons_append, cut] at ih ⊢
    obtain ⟨first, others⟩ := List.cons.inj ih
    by_cases h : c = sep
    · simp [h, first, others]
    · simp [h, first, others]

/-- A text without the separator is one piece. -/
theorem pieces_of_not_mem {sep : Char} {cs : List Char} (h : sep ∉ cs) : pieces sep cs = [cs] := by
  induction cs with
  | nil => rfl
  | cons c cs ih =>
    simp only [List.mem_cons, not_or] at h
    have rest := List.cons.inj (ih h.2)
    simp [pieces, cut, rest.1, rest.2, Ne.symm h.1]

/-- The pieces of a text make up the text. -/
theorem joinPieces_pieces (sep : Char) (cs : List Char) : joinPieces sep (pieces sep cs) = cs := by
  induction cs with
  | nil => rfl
  | cons c cs ih =>
    simp only [pieces] at ih ⊢
    by_cases h : c = sep
    · subst h
      simp [cut, joinPieces, ih]
    · rw [cut]
      simp only [h, if_false]
      cases hr : (cut sep cs).2 with
      | nil => simpa [joinPieces, hr] using ih
      | cons p ps => simpa [joinPieces, hr] using ih

/-- Two rows of pieces are joined around a separator. -/
theorem joinPieces_append {sep : Char} {ps qs : List (List Char)} (left : ps ≠ [])
    (right : qs ≠ []) :
    joinPieces sep (ps ++ qs) = joinPieces sep ps ++ sep :: joinPieces sep qs := by
  induction ps with
  | nil => exact absurd rfl left
  | cons p ps ih =>
    cases ps with
    | nil =>
      obtain ⟨q, qs, rfl⟩ := List.exists_cons_of_ne_nil right
      rfl
    | cons p' ps => simpa [joinPieces] using ih

/-- No piece holds the separator. -/
theorem not_mem_of_mem_pieces {sep : Char} {cs p : List Char} (h : p ∈ pieces sep cs) :
    sep ∉ p := by
  induction cs generalizing p with
  | nil => simp_all [pieces, cut]
  | cons c cs ih =>
    simp only [pieces, cut] at h ih
    by_cases hc : c = sep
    · simp only [hc, if_true, List.mem_cons] at h ih
      rcases h with h | h
      · simp [h]
      · exact ih h
    · simp only [hc, if_false, List.mem_cons] at h ih
      rcases h with h | h
      · subst h
        simp only [List.mem_cons, not_or]
        exact ⟨Ne.symm hc, ih (Or.inl rfl)⟩
      · exact ih (Or.inr h)

/-- Pieces without the separator are the pieces of their join. -/
theorem pieces_joinPieces {sep : Char} {ps : List (List Char)} (some_piece : ps ≠ [])
    (h : ∀ p ∈ ps, sep ∉ p) : pieces sep (joinPieces sep ps) = ps := by
  induction ps with
  | nil => exact absurd rfl some_piece
  | cons p ps ih =>
    cases ps with
    | nil => exact pieces_of_not_mem (h p List.mem_cons_self)
    | cons q qs =>
      rw [joinPieces, pieces_append, pieces_of_not_mem (h p List.mem_cons_self),
        ih (by simp) fun r hr => h r (List.mem_cons_of_mem _ hr)]
      · rfl
      · simp

/-- A name has at least one segment. -/
theorem segments_ne_nil (name : String) : segments name ≠ [] := by simp [segments, pieces]

/-- The segments of two names around a dot are the segments of both. -/
theorem segments_append (a b : String) : segments (a ++ "." ++ b) = segments a ++ segments b := by
  have hdot : (a ++ "." ++ b).toList = a.toList ++ '.' :: b.toList := by simp
  rw [segments, hdot, pieces_append, List.map_append]
  rfl

/-- The segments of a name make up the name. -/
theorem dotted_segments (name : String) : dotted (segments name) = name := by
  have back : ((pieces '.' name.toList).map String.ofList).map String.toList =
      pieces '.' name.toList := by
    simp [List.map_map, Function.comp_def]
  rw [dotted, segments, back, joinPieces_pieces, String.ofList_toList]

/-- The segments of a name tell which name it is. -/
theorem segments_inj {a b : String} (h : segments a = segments b) : a = b := by
  rw [← dotted_segments a, h, dotted_segments b]

end EntityQuery
