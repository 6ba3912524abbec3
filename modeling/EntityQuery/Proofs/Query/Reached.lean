import EntityQuery.Proofs.Query.Answers

/-!
# The states of a query

A query comes from a planned one by changes, by taking over the conditions and the selection of
other queries, and by being asked, for it remembers the expressions of its conditions. Its
conditions can also be replaced by another tree. All else that happens to them are edits.

* `Query.Reached` — the states of a query.
* `TreeM.Edits` — calls on a tree that are lists of edits; `Query.edits_copyConditions` for the
  conditions of another query.
* `Query.Asked` — what a query is after it was asked.
* `Query.Reached.follows` — the entity type, the source and the paths stay, and the conditions are
  edited.
-/

namespace EntityQuery

namespace TreeM

variable {α β : Type}

/-- A call that leaves the tree which a list of edits leaves. -/
def Edits (call : TreeM α) : Prop := ∀ t : Tree, ∃ edits, (t.outcome call).tree = t.run edits

theorem edits_pure (a : α) : Edits (pure a : TreeM α) := fun _ => ⟨[], rfl⟩

theorem edits_get : Edits (get : TreeM Tree) := fun _ => ⟨[], rfl⟩

theorem edits_ask (question : Tree → Except ConditionError α) : Edits (ask question) := by
  intro t
  refine ⟨[], ?_⟩
  rw [Tree.outcome, ask]
  cases question t <;> rfl

/-- An edit, whatever its answer is made into. -/
theorem edits_call {call : TreeM α} (e : Edit) (f : α → EditAnswer) (h : e.call = f <$> call) :
    Edits call := by
  intro t
  refine ⟨[e], ?_⟩
  show _ = (t.outcome e.call).tree
  have hmap : (f <$> call) t = EStateM.map f call t := rfl
  rw [h, Tree.outcome, Tree.outcome, hmap, EStateM.map]
  cases call t <;> rfl

theorem edits_bind {call : TreeM α} {next : α → TreeM β} (hcall : Edits call)
    (hnext : ∀ a, Edits (next a)) : Edits (call >>= next) := by
  intro t
  obtain ⟨edits, hedits⟩ := hcall t
  rw [Tree.outcome] at hedits
  cases hc : call t with
  | error e u =>
    rw [hc] at hedits
    exact ⟨edits, by rw [Tree.outcome, bind_error hc]; exact hedits⟩
  | ok a u =>
    rw [hc] at hedits
    obtain ⟨others, hothers⟩ := hnext a u
    refine ⟨edits ++ others, ?_⟩
    rw [Tree.run_append, ← show u = t.run edits from hedits, ← hothers, Tree.outcome, bind_ok hc,
      Tree.outcome]
    cases next a u <;> rfl

theorem edits_forM {f : β → TreeM PUnit} (hf : ∀ b, Edits (f b)) (bs : List β) :
    Edits (bs.forM f) := by
  induction bs with
  | nil => exact edits_pure PUnit.unit
  | cons b bs ih => exact edits_bind (hf b) fun _ => ih

end TreeM

namespace Query

variable {m : EntityModel} {start q : Query m}

/-- Conditions are copied by edits: the block is cleared, then every condition is added. -/
theorem edits_copyConditions (other : Tree) : TreeM.Edits (copyConditions other) := by
  refine TreeM.edits_bind TreeM.edits_get fun t => ?_
  refine TreeM.edits_bind (TreeM.edits_call (.clear t.root) _ rfl) fun _ => ?_
  refine TreeM.edits_bind (TreeM.edits_ask _) fun theirs => TreeM.edits_forM (fun child => ?_) _
  refine TreeM.edits_bind (TreeM.edits_ask _) fun c => ?_
  exact TreeM.edits_bind (TreeM.edits_call (.add t.root c) _ rfl) fun _ => TreeM.edits_pure _

/-- The states of a query. Besides changes these are the states after its conditions were replaced,
after it took over from another query, and after it was asked. -/
inductive Reached (start : Query m) : Query m → Prop
  | start : Reached start start
  | change {q : Query m} (h : Reached start q) (c : QueryChange) : Reached start (q.change c)
  | replace {q : Query m} (h : Reached start q) (factory : OperatorFactory) (edits : List Edit) :
      Reached start { q with conditions := (Tree.ofFactory factory).run edits }
  | transplant {q other q' : Query m} {events : List Event} (h : Reached start q)
      (hcopy : q.transplant other = .ok (q', events)) : Reached start q'
  | execute {q : Query m} (h : Reached start q) (limit offset : Option Nat) :
      Reached start (q.execute limit offset).query
  | executeAs {q : Query m} (h : Reached start q) (view : m.Ty) (limit offset : Option Nat) :
      Reached start (q.executeAs view limit offset).query
  | page {q : Query m} (h : Reached start q) (size page : Nat) :
      Reached start (q.page size page).query
  | pageAs {q : Query m} (h : Reached start q) (view : m.Ty) (size page : Nat) :
      Reached start (q.pageAs view size page).query

/-! ### What asking leaves -/

/-- The query after it was asked: as it was, or with the expressions of its conditions
remembered. -/
def Asked (q q' : Query m) : Prop :=
  q' = q ∨ ∃ c, q.conditions.compile q.root = .ok c ∧ q' = { q with conditions := c.result }

theorem asked_compile {c : Compiled (Query m)} (h : q.compile = .ok c) : Asked q c.result := by
  rw [compile] at h
  cases hc : q.conditions.compile q.root with
  | error e =>
    rw [hc] at h
    cases h
  | ok d =>
    rw [hc] at h
    cases h
    exact Or.inr ⟨d, hc, rfl⟩

theorem asked_execute (q : Query m) (limit offset : Option Nat) :
    Asked q (q.execute limit offset).query := by
  rw [execute]
  split
  · exact Or.inl rfl
  · rename_i hcompile
    have hasked := asked_compile hcompile
    split <;> exact hasked

theorem asked_executeAs (q : Query m) (view : m.Ty) (limit offset : Option Nat) :
    Asked q (q.executeAs view limit offset).query := by
  rw [executeAs]
  split
  · exact Or.inl rfl
  · split
    · exact Or.inl rfl
    · rename_i hcompile
      exact asked_compile hcompile

theorem asked_paged {α : Type} (q : Query m) (projection? : Except PathError Projection)
    (includes : Projection → List String) (size page : Nat) (ofRecord : Record → α) :
    Asked q (q.paged projection? includes size page ofRecord).query := by
  unfold paged
  split
  · exact Or.inl rfl
  · split
    · exact Or.inl rfl
    · split
      · exact Or.inl rfl
      · rename_i hcompile
        have hasked := asked_compile hcompile
        dsimp only
        split <;> exact hasked

/-- Remembering expressions is an edit of the conditions. -/
theorem Follows.asked (h : Follows q start) {q' : Query m} (hasked : Asked q q') :
    Follows q' start := by
  rcases hasked with rfl | ⟨c, hcompile, rfl⟩
  · exact h
  · rw [← Tree.after_compile hcompile]
    exact h.change (.edit (.compile q.root))

/-! ### What every state keeps -/

/-- Taking over from another query gives the same paths other flags, and edits the conditions. -/
theorem Follows.transplant (h : Follows q start) {other q' : Query m} {events : List Event}
    (hcopy : q.transplant other = .ok (q', events)) : Follows q' start := by
  obtain ⟨edits, hedits⟩ := h.conditions
  obtain ⟨others, hothers⟩ := edits_copyConditions other.conditions q.conditions
  rw [Query.transplant] at hcopy
  split at hcopy
  · cases hcopy
  · cases hcopy
    refine ⟨h.entity, h.source, ?_, edits ++ others, ?_⟩
    · rw [← h.paths, takeFlags, List.map_map]
      refine List.map_congr_left fun s _ => ?_
      simp only [Function.comp_apply]
      split <;> rfl
    · rw [Tree.run_append, ← hedits]
      exact hothers

/-- Every state follows the first one, or that with the tree in place that has replaced its
conditions. -/
theorem Reached.follows (h : Reached start q) {factory : OperatorFactory}
    (hstart : start.conditions = .ofFactory factory) :
    ∃ factory, Follows q { start with conditions := .ofFactory factory } := by
  induction h with
  | start =>
    refine ⟨factory, ?_⟩
    rw [← hstart]
    exact follows_self start
  | change _ c ih => exact ih.imp fun _ h => h.change c
  | replace _ factory edits ih =>
    obtain ⟨_, h⟩ := ih
    exact ⟨factory, h.entity, h.source, h.paths, edits, rfl⟩
  | transplant _ hcopy ih => exact ih.imp fun _ h => h.transplant hcopy
  | execute _ limit offset ih => exact ih.imp fun _ h => h.asked (asked_execute _ limit offset)
  | executeAs _ view limit offset ih =>
    exact ih.imp fun _ h => h.asked (asked_executeAs _ view limit offset)
  | page _ size page ih => exact ih.imp fun _ h => h.asked (asked_paged _ _ _ size page _)
  | pageAs _ view size page ih =>
    exact ih.imp fun _ h => h.asked (asked_paged _ _ _ size page _)

end Query

end EntityQuery
