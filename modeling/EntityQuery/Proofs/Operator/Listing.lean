import EntityQuery.Proofs.List.Mapping
import EntityQuery.Proofs.Value.Legible
import EntityQuery.Operator.Basic

/-!
# Lists that are read as they are shown

A list of values of a legible kind is shown with a comma and a blank between its items. The operators
of membership cut raw input at commas and read the pieces without the blanks at their ends, so they
read the same list. The empty list is shown as nothing, and so is a list that consists of an empty
text alone, which is therefore not read back.

* `Operator.parseItem?_cons`, `Operator.parseItem?_plain` — items of a raw list.
* `Operator.pieces_plain` — the pieces of a list as it is shown.
* `Operator.parseItems?_plain` — a list of items is read as it is shown.
* `Kind.parse_shown` — values and lists of a legible kind are read as they are shown.
-/

namespace EntityQuery

namespace Operator

variable {k : Kind} {v : Value} {items : List Value}

/-! ### Items -/

/-- A blank in front of an item does not count. -/
theorem parseItem?_cons {c : Char} (hc : isBlank c = true) (cs : List Char) :
    parseItem? k (String.ofList (c :: cs)) = parseItem? k (String.ofList cs) := by
  have htrim : trim (String.ofList (c :: cs)).toList = trim (String.ofList cs).toList := by
    rw [String.toList_ofList, String.toList_ofList, trim_cons hc]
  by_cases hk : k = .text
  · rw [parseItem?, parseItem?, if_pos hk, if_pos hk, htrim]
  · rw [parseItem?, parseItem?, if_neg hk, if_neg hk]
    cases k with
    | text => exact absurd rfl hk
    | _ => simp only [Kind.parse?, htrim]

/-- A value of a legible kind is read as it is shown also where it is an item. -/
theorem parseItem?_plain (hk : k.Legible) (h : k.accepts v)
    (hitem : Kind.IsItemText v.plain) : parseItem? k v.plain = some v := by
  by_cases htext : k = .text
  · subst htext
    cases v with
    | text s =>
      have htrim : trim s.toList = s.toList := hitem.1
      show parseItem? .text s = _
      rw [parseItem?, if_pos rfl, htrim, String.ofList_toList]
    | _ => cases h
  · rw [parseItem?, if_neg htext, Kind.parse?_plain hk h]

/-! ### Lists -/

/-- Texts joined by a comma and a blank are pieces joined by a comma, with a blank in front of all but
the first. -/
theorem toList_intercalate_comma (s : String) (ss : List String) :
    (", ".intercalate (s :: ss)).toList =
      joinPieces ',' (s.toList :: ss.map fun t => ' ' :: t.toList) := by
  induction ss generalizing s with
  | nil =>
    rw [String.intercalate_singleton]
    rfl
  | cons t ts ih =>
    rw [String.intercalate_cons_cons, String.toList_append, String.toList_append, ih, List.map_cons,
      joinPieces_cons_cons, joinPieces_cons, List.append_assoc]
    rfl

theorem toList_plain_list (v : Value) (items : List Value) :
    (Value.list (v :: items)).plain.toList =
      joinPieces ',' (v.plain.toList :: items.map fun item => ' ' :: item.plain.toList) := by
  rw [Value.plain, Value.plainItems_eq_map, List.map_cons, toList_intercalate_comma, List.map_map]
  rfl

/-- The pieces of a list as it is shown are its items, with a blank in front of all but the first. -/
theorem pieces_plain (h : ∀ item ∈ v :: items, Kind.IsItemText item.plain) :
    pieces ',' (Value.list (v :: items)).plain.toList =
      v.plain.toList :: items.map fun item => ' ' :: item.plain.toList := by
  rw [toList_plain_list]
  refine pieces_joinPieces (List.cons_ne_nil _ _) fun p hp => ?_
  rcases List.mem_cons.mp hp with rfl | hp
  · exact (h v List.mem_cons_self).2
  · obtain ⟨item, hitem, rfl⟩ := List.mem_map.mp hp
    have hcomma := (h item (List.mem_cons_of_mem _ hitem)).2
    exact fun hmem => (List.mem_cons.mp hmem).elim (by decide) hcomma

/-- A list that is not empty is shown as something, unless its only item is shown as nothing. -/
theorem trim_plain_ne_nil (h : Kind.IsItemText v.plain) (hsome : v.plain = "" → items ≠ []) :
    trim (Value.list (v :: items)).plain.toList ≠ [] := by
  rw [toList_plain_list]
  cases items with
  | nil =>
    intro hnil
    have hempty : v.plain.toList = [] := h.1.symm.trans hnil
    exact hsome (String.toList_inj.mp hempty) rfl
  | cons next items =>
    refine List.ne_nil_of_mem (mem_trim (c := ',') ?_ rfl)
    rw [List.map_cons, joinPieces_cons_cons]
    exact List.mem_append_right _ List.mem_cons_self

/-- Items that are read as they are shown are a list that is read as it is shown. -/
theorem parseItems?_plain (hitems : ∀ item ∈ items, Kind.IsItemText item.plain)
    (hread : ∀ item ∈ items, parseItem? k item.plain = some item)
    (hempty : ∀ item, items = [item] → item.plain ≠ "") :
    parseItems? k (Value.list items).plain = some items := by
  cases items with
  | nil => rfl
  | cons v items =>
    have hsome : trim (Value.list (v :: items)).plain.toList ≠ [] :=
      trim_plain_ne_nil (hitems v List.mem_cons_self) fun hv hnil =>
        hempty v (by rw [hnil]) hv
    have hrest : (items.map fun item => ' ' :: item.plain.toList).mapM
        (fun piece => parseItem? k (String.ofList piece)) = some (items.map id) := by
      refine mapM_map_eq_pure fun item hitem => ?_
      rw [parseItem?_cons rfl, String.ofList_toList]
      exact hread item (List.mem_cons_of_mem _ hitem)
    rw [parseItems?, if_neg (by simpa using hsome), pieces_plain hitems, List.mapM_cons,
      String.ofList_toList, hread v List.mem_cons_self, hrest, List.map_id]
    rfl

end Operator

namespace Kind

variable {k : Kind} {v : Value}

/-- Only empty texts and names are shown as nothing. -/
theorem eq_of_plain_eq_empty (hk : k.Legible) (h : k.accepts v) (hplain : v.plain = "") :
    v = .text "" ∨ v = .enum "" := by
  have hparse := parse?_plain hk h
  rw [hplain] at hparse
  cases k with
  | text => exact .inl (Option.some.inj hparse).symm
  | enum _ variants =>
    cases v with
    | enum name => exact .inr (congrArg Value.enum hplain)
    | _ => cases h
  | bool => cases hparse
  | signed w => cases hparse
  | unsigned w => cases hparse
  | _ => exact hk.elim

/-- Values of a legible kind are read as they are shown, and so are their lists by the operators of
membership, except for the list of an empty text or name alone. Texts in a list have no blanks at
their ends and no commas. -/
theorem parse_shown (hk : k.Legible) :
    (∀ v, k.accepts v → k.parse? v.plain = some v) ∧
      ∀ negated items, (∀ item ∈ items, k.accepts item) →
        (k = .text → ∀ item ∈ items, IsItemText item.plain) →
        items ≠ [.text ""] → items ≠ [.enum ""] →
        (Operator.membership negated).parseRaw? k (Value.list items).plain = some (.list items) := by
  refine ⟨fun v => parse?_plain hk, fun negated items haccepts htexts htext henum => ?_⟩
  have hitems : ∀ item ∈ items, IsItemText item.plain := fun item hitem =>
    isItemText_plain hk (haccepts item hitem) fun hkind => htexts hkind item hitem
  have hread : ∀ item ∈ items, Operator.parseItem? k item.plain = some item := fun item hitem =>
    Operator.parseItem?_plain hk (haccepts item hitem) (hitems item hitem)
  have hempty : ∀ item, items = [item] → item.plain ≠ "" := by
    rintro item rfl hplain
    obtain rfl | rfl := eq_of_plain_eq_empty hk (haccepts item List.mem_cons_self) hplain
    · exact htext rfl
    · exact henum rfl
  show (Operator.parseItems? k (Value.list items).plain).map Value.list = _
  rw [Operator.parseItems?_plain hitems hread hempty, Option.map_some]

/-- A list of levels, and one of texts of which one is empty. -/
theorem parse_shown_levels :
    let level : Kind := .enum "Level" ["low", "high"]
    let levels : List Value := [.enum "high", .enum "low"]
    let texts : List Value := [.text "", .text "a b"]
    level.Legible ∧ level.parse? (Value.enum "high").plain = some (.enum "high") ∧
      (Operator.membership true).parseRaw? level (Value.list levels).plain = some (.list levels) ∧
      (Operator.membership false).parseRaw? .text (Value.list texts).plain = some (.list texts) := by
  have hlevel : (Kind.enum "Level" ["low", "high"]).Legible := by
    refine ⟨fun name hname => ?_, by decide⟩
    have hnames : name = "low" ∨ name = "high" := by simpa using hname
    obtain rfl | rfl := hnames <;> exact ⟨by decide, by decide⟩
  have hlevels : ∀ item ∈ [Value.enum "high", .enum "low"],
      (Kind.enum "Level" ["low", "high"]).accepts item := by
    simp [accepts]
  have htexts : ∀ item ∈ [Value.text "", .text "a b"], text.accepts item ∧ IsItemText item.plain := by
    simp only [List.forall_mem_cons]
    exact ⟨⟨rfl, by decide, by decide⟩, ⟨rfl, by decide, by decide⟩, List.forall_mem_nil _⟩
  obtain ⟨hvalue, hlist⟩ := parse_shown hlevel
  exact ⟨hlevel, hvalue _ rfl, hlist true _ hlevels (fun h => by cases h) (by simp) (by simp),
    (parse_shown (k := text) trivial).2 false _ (fun item hitem => (htexts item hitem).1)
      (fun _ item hitem => (htexts item hitem).2) (by simp) (by simp)⟩

-- an empty text alone is taken for no item at all
example : (Operator.membership false).parseRaw? .text (Value.list [.text ""]).plain =
    some (.list []) := rfl

end Kind

end EntityQuery
