import Mathlib.Data.List.Forall2

/-!
# Steps taken on lists

* `mapM_map_eq_pure` — a step that succeeds on every entry succeeds on the list.
* `forall_mem_of_mapM` — what all results of a step have in common.
* `mapM_eq_some_iff` — a step succeeds on a list when it succeeds on every entry.
* `foldl_eq_getLastD` — of the values that are given one after the other, the last one counts.
-/

namespace EntityQuery

/-- A step that succeeds on every element succeeds on the list. -/
theorem mapM_map_eq_pure {m : Type → Type} [Monad m] [LawfulMonad m] {α β γ : Type} {f : β → m γ}
    {g : α → β} {h : α → γ} {xs : List α} (hf : ∀ x ∈ xs, f (g x) = pure (h x)) :
    (xs.map g).mapM f = pure (xs.map h) := by
  induction xs with
  | nil => rfl
  | cons x xs ih =>
    rw [List.map_cons, List.mapM_cons, hf x List.mem_cons_self, pure_bind,
      ih fun x hx => hf x (List.mem_cons_of_mem _ hx), pure_bind, List.map_cons]

/-- What a function gives for all entries of a list has the property that all its results have. -/
theorem forall_mem_of_mapM {α β : Type} {f : α → Option β} {p : β → Prop}
    (hf : ∀ a b, f a = some b → p b) {as : List α} {bs : List β} (h : as.mapM f = some bs) :
    ∀ b ∈ bs, p b := by
  induction as generalizing bs with
  | nil =>
    cases h
    exact List.forall_mem_nil _
  | cons a as ih =>
    rw [List.mapM_cons] at h
    obtain ⟨first, hfirst, hrest⟩ := Option.bind_eq_some_iff.mp h
    obtain ⟨others, hothers, hbs⟩ := Option.bind_eq_some_iff.mp hrest
    cases hbs
    exact List.forall_mem_cons.mpr ⟨hf a first hfirst, ih hothers⟩

/-- A step succeeds on a list when it succeeds on every entry, and gives their results in order. -/
theorem mapM_eq_some_iff {α β : Type} {f : α → Option β} {as : List α} {bs : List β} :
    as.mapM f = some bs ↔ List.Forall₂ (fun a b => f a = some b) as bs := by
  induction as generalizing bs with
  | nil => rw [List.mapM_nil, List.forall₂_nil_left_iff]; exact Option.some_inj.trans eq_comm
  | cons a as ih =>
    rw [List.mapM_cons, List.forall₂_cons_left_iff]
    constructor
    · intro h
      obtain ⟨b, hb, hrest⟩ := Option.bind_eq_some_iff.mp h
      obtain ⟨others, hothers, hbs⟩ := Option.bind_eq_some_iff.mp hrest
      exact ⟨b, others, hb, ih.mp hothers, (Option.some.inj hbs).symm⟩
    · rintro ⟨b, others, hb, hothers, rfl⟩
      rw [hb, ih.mpr hothers]
      rfl

/-- Of the values that are given in steps, the last one counts. -/
theorem foldl_eq_getLastD {σ τ α : Type*} {step : σ → τ → σ} (value : σ → α) {value? : τ → Option α}
    {steps : List τ} (h : ∀ t ∈ steps, ∀ s, value (step s t) = (value? t).getD (value s)) (s : σ) :
    value (steps.foldl step s) = (steps.filterMap value?).getLastD (value s) := by
  induction steps generalizing s with
  | nil => rfl
  | cons t steps ih =>
    have hstep := h t List.mem_cons_self s
    rw [List.foldl_cons, ih (fun t ht => h t (List.mem_cons_of_mem _ ht)), hstep]
    cases hgiven : value? t with
    | none => rw [List.filterMap_cons_none hgiven, Option.getD_none]
    | some a => rw [List.filterMap_cons_some hgiven, Option.getD_some, List.getLastD_cons]

end EntityQuery
