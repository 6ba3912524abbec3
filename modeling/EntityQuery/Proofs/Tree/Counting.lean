import EntityQuery.Proofs.Tree.Filling
import EntityQuery.Proofs.Tree.Listening

/-!
# How many expressions are built

A request for an expression builds those that are missing below the condition, and a change makes
those missing that lead from where listeners are told up to the root. So a request after a change
builds the expressions on this way, and those of new conditions.

* `Tree.filled`, `Tree.names`, `Tree.below` — conditions with a remembered expression, all
  conditions, and those below one of them.
* `Tree.origin?` — the condition from which a change is told upwards.
* `Represents.mem_below` — the conditions below a node are those from which the way leads through it.
* `Represents.compile_below`, `Represents.compile_again` — what a request builds, and a second one.
* `Represents.silent_or_clears`, `Represents.filled_after` — what an edit forgets, and what it does
  not.
* `Represents.compile_after` — what a request builds after a change.
* `Tree.Recompiles` — how many expressions requests build; `Tree.recompiles_run` for every tree that
  comes about by edits.
-/

namespace EntityQuery

namespace Tree

/-- Whether the expression of a condition is remembered. -/
def filled (t : Tree) (id : NodeId) : Bool := (t.arena.get? id).any (·.cache.isSome)

/-- The names in use. -/
def names (t : Tree) : List NodeId :=
  (List.range t.levels).filterMap fun index =>
    (t.arena.slots[index]?).bind fun s => s.entry?.map fun _ => ⟨index, s.generation⟩

/-- The names in use from which the way to the root leads through a condition: its own, and those of
all conditions below it. -/
def below (t : Tree) (id : NodeId) : List NodeId := t.names.filter fun i => id ∈ t.upwards i

/-- From where an edit forgets expressions and tells listeners: a new condition, or else the one from
which it tells them. -/
def origin? (t : Tree) (e : Edit) : Option NodeId :=
  match (t.perform e).answer with
  | .error _ => none
  | .ok answer => answer.created?.or (t.start? e)

/-- How many expressions a tree builds when it is asked for them. -/
structure Recompiles (t : Tree) : Prop where
  /-- Below a condition whose expression is remembered, all are. -/
  closed {id i : NodeId} (hid : t.filled id) (hi : i ∈ t.below id) : t.filled i
  /-- A request for the expression of a condition builds those that are missing below it. Then all
  of them are remembered, and nothing else has changed. -/
  compile {id : NodeId} (hid : t.contains id) :
    ∃ c, t.compile id = .ok c ∧ c.built = (t.below id).countP (!t.filled ·) ∧
      (∀ i ∈ t.below id, c.result.filled i) ∧ c.result.forgetful = t.forgetful ∧
      ∀ i, t.filled i ∨ i ∉ t.below id → c.result.arena.get? i = t.arena.get? i
  /-- Other names have no expression. -/
  unknown {id : NodeId} (hid : ¬ t.contains id) : t.compile id = .error (.unknownCondition id)
  /-- Calls that fail announce nothing, and neither do grouping that gives no block and ungrouping
  that moves nothing. -/
  silent {e : Edit} (h : (∃ cause, (t.perform e).answer = .error cause) ∨
      (∃ block candidates, e = .group block candidates) ∧
        (t.perform e).answer = .ok (.grouped none) ∨
      (∃ block candidates, e = .ungroup block candidates) ∧
        (t.perform e).answer = .ok (.flag false)) : t.notice? e = none
  /-- A second request builds nothing, if nothing is announced in between. -/
  again {id : NodeId} {c : Compiled Tree} (hc : t.compile id = .ok c) {edits : List Edit}
    (hsilent : c.result.notices edits = []) :
    ∃ d, (c.result.run edits).compile id = .ok d ∧ d.built = 0
  /-- A change forgets the expressions on the way from its origin to the root, where the listeners
  are that hear of it, and no others. -/
  forgets {e : Edit} {notice : Notice} (hnotice : t.notice? e = some notice) :
    ∃ origin, t.origin? e = some origin ∧ ((t.after e).upwards origin).Nodup ∧
      (∀ i ∈ (t.after e).upwards origin, (t.after e).contains i) ∧
      ((t.after e).upwards origin).getLast? = some t.root ∧
      (t.perform e).events = ((t.after e).upwards origin).flatMap
        (fun id => notice.events ((t.after e).listeners id)) ∧
      ∀ i, (t.after e).contains i →
        (t.after e).filled i = (t.filled i && !((t.after e).upwards origin).contains i)
  /-- If all expressions are remembered before a change, a request for that of the root builds those
  on the way from the origin to the root, and those of the new conditions elsewhere. -/
  once {c : Compiled Tree} (hc : t.compile t.root = .ok c) {e : Edit} {notice : Notice}
    (hnotice : c.result.notice? e = some notice) :
    ∃ origin d, c.result.origin? e = some origin ∧ (c.result.after e).compile t.root = .ok d ∧
      d.built = ((c.result.after e).upwards origin).length +
        (c.result.after e).names.countP fun i =>
          !c.result.contains i && !((c.result.after e).upwards origin).contains i

theorem mem_names {t : Tree} {i : NodeId} : i ∈ t.names ↔ t.contains i := by
  rw [names, List.mem_filterMap, contains, Arena.get?_def]
  constructor
  · rintro ⟨index, -, h⟩
    obtain ⟨s, hs, h⟩ := Option.bind_eq_some_iff.mp h
    obtain ⟨e, he, rfl⟩ := Option.map_eq_some_iff.mp h
    simp [hs, he]
  · intro h
    cases hs : t.arena.slots[i.index]? with
    | none => simp [hs] at h
    | some s =>
      rw [hs, Option.bind_some] at h
      split at h
      next hgen =>
        obtain ⟨e, he⟩ := Option.isSome_iff_exists.mp h
        refine ⟨i.index, List.mem_range.mpr (List.getElem?_eq_some_iff.mp hs).1, ?_⟩
        simp [hs, he, hgen]
      next => cases h

theorem nodup_names (t : Tree) : t.names.Nodup := by
  refine List.nodup_range.filterMap fun index other i hi hother => ?_
  obtain ⟨s, -, hs⟩ := Option.bind_eq_some_iff.mp hi
  obtain ⟨r, -, hr⟩ := Option.bind_eq_some_iff.mp hother
  obtain ⟨-, -, rfl⟩ := Option.map_eq_some_iff.mp hs
  obtain ⟨-, -, heq⟩ := Option.map_eq_some_iff.mp hr
  exact (congrArg NodeId.index heq).symm

theorem contains_forgetful (t : Tree) (id : NodeId) :
    t.forgetful.contains id = t.contains id := by
  rw [contains, contains, forgetful, Arena.get?_forgetful, Option.isSome_map]

theorem mem_below {t : Tree} {id i : NodeId} :
    i ∈ t.below id ↔ t.contains i ∧ id ∈ t.upwards i := by
  rw [below, List.mem_filter, mem_names, decide_eq_true_iff]

end Tree

/-! ### The conditions below a node -/

namespace Node

/-- A block around a node has it below itself. -/
theorem exists_plug_of_heads {frames : List NodeFrame} {n : Node} {head : Head}
    (h : head ∈ heads frames n) :
    ∃ outer k, plug frames n = plug outer k ∧ k.head = head ∧ n ∈ k.toList := by
  induction frames generalizing n with
  | nil =>
    rw [heads, List.map_nil, List.mem_singleton] at h
    exact ⟨[], n, rfl, h.symm, n.mem_toList_self⟩
  | cons frame frames ih =>
    rw [heads_cons, List.mem_cons] at h
    obtain rfl | h := h
    · exact ⟨frame :: frames, n, rfl, rfl, n.mem_toList_self⟩
    · obtain ⟨outer, k, hroot, hhead, hk⟩ := ih h
      refine ⟨outer, k, hroot, hhead, ?_⟩
      obtain ⟨inner, rfl⟩ := exists_plug_of_mem hk
      exact mem_toList_plug_of_mem (mem_toList_of_child
        (frame.mem_children_attach.mpr (Or.inl rfl)) n.mem_toList_self)

theorem head_mem_heads (inner outer : List NodeFrame) (n : Node) :
    (plug inner n).head ∈ heads (inner ++ outer) n := by
  induction inner generalizing n with
  | nil => exact List.mem_cons_self
  | cons frame inner ih => exact List.mem_cons_of_mem _ (ih (frame.attach n))

end Node

namespace Represents

variable {t : Tree} {o : Outline} {frames : List NodeFrame} {n : Node} {i : NodeId}

/-- A name is that of one node. -/
theorem eq_of_id (h : Represents t o) {outer : List NodeFrame} {k : Node}
    (hn : o.root = .plug frames n) (hk : o.root = .plug outer k) (hid : n.id = k.id) : n = k := by
  have hnodup := h.nodup
  have hfind : o.root.find? n.id = o.root.find? k.id := by rw [hid]
  rw [hn, Node.find?_plug_self (hn ▸ hnodup), ← hn, hk, Node.find?_plug_self (hk ▸ hnodup)] at hfind
  exact Option.some.inj hfind

/-- The way from a name to the root leads through a node exactly if the name is below the node. -/
theorem mem_upwards (h : Represents t o) (hroot : o.root = .plug frames n)
    (hi : t.contains i) : n.id ∈ t.upwards i ↔ i ∈ n.ids := by
  obtain ⟨outer, k, hk, rfl, -⟩ | ⟨-, -, hnone⟩ := h.known_or_unknown i
  · constructor
    · intro hmem
      rw [h.upwards_plug hk] at hmem
      obtain ⟨head, hhead, hid⟩ := List.mem_map.mp hmem
      obtain ⟨around, m, hm, rfl, hbelow⟩ := Node.exists_plug_of_heads hhead
      rw [h.eq_of_id hroot (hk.trans hm) hid.symm]
      exact Node.mem_ids_of_mem hbelow
    · intro hmem
      obtain ⟨inner, m, rfl, hid⟩ := Node.exists_plug hmem
      rw [← Node.plug_append] at hroot
      rw [← hid, h.upwards_plug hroot]
      exact List.mem_map_of_mem (Node.head_mem_heads inner frames m)
  · rw [Tree.contains, hnone] at hi
    cases hi

theorem mem_below (h : Represents t o) (hroot : o.root = .plug frames n) :
    i ∈ t.below n.id ↔ i ∈ n.ids := by
  rw [Tree.mem_below]
  refine ⟨fun ⟨hi, hmem⟩ => (h.mem_upwards hroot hi).mp hmem, fun hmem => ?_⟩
  have hi : t.contains i := by
    rw [h.contains_iff_mem, hroot]
    exact Node.mem_ids_plug frames hmem
  exact ⟨hi, (h.mem_upwards hroot hi).mpr hmem⟩

theorem self_below (h : Represents t o) (hi : t.contains i) : i ∈ t.below i := by
  obtain ⟨frames, n, hroot, rfl, -⟩ | ⟨-, -, hnone⟩ := h.known_or_unknown i
  · exact (h.mem_below hroot).mpr n.id_mem_ids
  · rw [Tree.contains, hnone] at hi
    cases hi

theorem below_perm (h : Represents t o) (hroot : o.root = .plug frames n) :
    (t.below n.id).Perm n.ids := by
  have hnodup := h.nodup
  rw [hroot] at hnodup
  rw [Tree.below, List.perm_ext_iff_of_nodup (t.nodup_names.filter _)
    ((Node.ids_plug_perm frames n).nodup_iff.mp hnodup).of_append_right]
  exact fun _ => h.mem_below hroot

theorem below_eq_names (h : Represents t o) : t.below t.root = t.names := by
  refine List.filter_eq_self.mpr fun i hi => decide_eq_true ?_
  rw [Tree.mem_names] at hi
  have hroot : o.root = .plug [] o.root := rfl
  rw [h.root, h.mem_upwards hroot hi, ← h.contains_iff_mem]
  exact hi

theorem filled_plug (h : Represents t o) (hroot : o.root = .plug frames n) :
    t.filled n.id = n.filled := by
  rw [Tree.filled, (h.includes hroot).get?_eq]
  rfl

theorem filled_of_mem (h : Represents t o) {k : Node} (hk : k ∈ o.root.toList) :
    t.filled k.id = k.filled := by
  obtain ⟨frames, hroot⟩ := Node.exists_plug_of_mem hk
  exact h.filled_plug hroot

theorem countP_below (h : Represents t o) (hroot : o.root = .plug frames n) :
    (t.below n.id).countP (!t.filled ·) = n.toList.countP (!·.filled) := by
  rw [(h.below_perm hroot).countP_eq, Node.ids, List.countP_map]
  refine List.countP_congr fun k hk => ?_
  rw [Function.comp_apply, h.filled_of_mem (hroot ▸ Node.mem_toList_plug_of_mem hk)]

theorem contains_of_filled (hi : t.filled i) : t.contains i := by
  rw [Tree.filled] at hi
  rw [Tree.contains]
  cases he : t.arena.get? i with
  | none => rw [he] at hi; cases hi
  | some e => rfl

theorem filled_iff (h : Represents t o) : t.filled i ↔ o.root.Remembers i := by
  constructor
  · intro hi
    obtain ⟨frames, n, hroot, rfl, -⟩ | ⟨-, -, hnone⟩ := h.known_or_unknown i
    · refine ⟨n, ?_, rfl, h.filled_plug hroot ▸ hi⟩
      rw [hroot]
      exact Node.mem_toList_plug_of_mem n.mem_toList_self
    · rw [Tree.filled, hnone] at hi
      cases hi
  · rintro ⟨k, hk, rfl, hfilled⟩
    rwa [h.filled_of_mem hk]

/-! ### Requests -/

/-- A request for an expression compiles the node. -/
theorem compile_plug (h : Represents t o) (hroot : o.root = .plug frames n) :
    ∃ c, t.compile n.id = .ok c ∧ c.built = n.compile.built ∧
      Represents c.result { o with root := .plug frames n.compile.result } := by
  have hcompile := h.compile_spec n.id
  rw [Outline.compile, Outline.node_plug h.nodup hroot] at hcompile
  obtain ⟨a, ha, hrep⟩ := hcompile
  simp only [h.update_eq hroot] at hrep
  exact ⟨_, ha, rfl, hrep⟩

theorem forgetful_compile {c : Compiled Tree} (hc : t.compile i = .ok c) :
    c.result.forgetful = t.forgetful := by
  rw [Tree.compile] at hc
  cases ha : t.arena.compileAt t.levels i with
  | error cause => rw [ha] at hc; cases hc
  | ok b =>
    rw [ha] at hc
    cases hc
    exact congrArg (fun arena => { t with arena }) (Arena.forgetful_compileAt ha)

/-- A request leaves all entries alone but those of conditions below whose expressions are not yet
remembered. -/
theorem get?_compile (h : Represents t o) (hroot : o.root = .plug frames n) {c : Compiled Tree}
    (hc : t.compile n.id = .ok c)
    (hrep : Represents c.result { o with root := .plug frames n.compile.result })
    (hi : t.filled i ∨ i ∉ t.below n.id) : c.result.arena.get? i = t.arena.get? i := by
  cases he : t.arena.get? i with
  | none =>
    have hsame := congrArg (·.arena.get? i) (forgetful_compile hc)
    simp only [Tree.forgetful, Arena.get?_forgetful, he, Option.map_none,
      Option.map_eq_none_iff] at hsame
    exact hsame
  | some e =>
    have hmem := (h.stores.mem i e).mp he
    rw [hroot, Node.entries_plug, Multiset.mem_add] at hmem
    have hid : n.compile.result.id = n.id := congrArg (·.id) (Node.head_compile n)
    refine (hrep.stores.mem i e).mpr ?_
    rw [show Outline.root _ = .plug frames n.compile.result from rfl, Node.entries_plug, hid,
      Multiset.mem_add]
    refine hmem.imp_left fun hmem => Node.mem_entries_compile hmem ?_
    rcases hi with hi | hi
    · rw [Tree.filled, he] at hi
      exact hi
    · refine absurd ((h.mem_below hroot).mpr ?_) hi
      rw [← Multiset.mem_coe, ← Node.map_fst_entries (Node.above frames)]
      exact Multiset.mem_map_of_mem Prod.fst hmem

/-- An expression that is remembered is not built. -/
theorem compile_of_filled (h : Represents t o) (hi : t.filled i) :
    ∃ d, t.compile i = .ok d ∧ d.built = 0 := by
  obtain ⟨frames, n, hroot, rfl, -⟩ | ⟨-, -, hnone⟩ := h.known_or_unknown i
  · obtain ⟨d, hd, hbuilt, -⟩ := h.compile_plug hroot
    rw [h.filled_plug hroot] at hi
    exact ⟨d, hd, hbuilt.trans (Node.compile_of_filled hi).2⟩
  · rw [Tree.filled, hnone] at hi
    cases hi

/-! ### Changes -/

/-- An edit announces nothing and leaves the conditions as they are, or it forgets expressions and
tells listeners from its origin upwards. -/
theorem silent_or_clears (h : Represents t o) (e : Edit) :
    t.notice? e = none ∧ o.Silent (o.after e) ∨
      ∃ notice frames n, t.notice? e = some notice ∧ t.origin? e = some n.id ∧
        (o.after e).root = .plug frames n ∧ o.Clears (o.after e) n.id ∧
        (t.perform e).events =
          (Node.heads frames n).flatMap fun head => notice.events head.listeners := by
  have hnodup := (h.after e).nodup
  have hstart := h.start?_eq e
  rw [Tree.notice?, Tree.origin?, h.answer_perform]
  rw [Outline.after] at hnodup hstart ⊢
  cases hx : o.perform e with
  | error cause => exact Or.inl ⟨rfl, o.silent_refl⟩
  | ok x =>
    rw [hx] at hnodup hstart
    rw [h.events_perform hx]
    obtain ⟨hnone, -, hsilent⟩ | ⟨p, start, notice, hnotice, horigin, heq, hdiffers⟩ :=
      (Outline.step_perform h.nodup hx).silent_or_changed h.nodup hnodup
    · exact Or.inl ⟨hnone, hsilent⟩
    · rw [heq] at hnodup
      have hclears := hdiffers.clears hnodup
      obtain ⟨frames, n, hafter, rfl, hevents⟩ := hdiffers.told hnodup
      rw [← heq] at hclears hafter hevents
      refine Or.inr ⟨notice, frames, n, hnotice, ?_, hafter, hclears, hevents⟩
      rw [← horigin, Outline.origin?, ← hstart]
      rfl

/-- An edit that announces nothing forgets nothing. -/
theorem filled_of_silent (h : Represents t o) (hclosed : o.root.Closed) {e : Edit}
    (hsilent : t.notice? e = none) (hi : t.filled i) : (t.after e).filled i := by
  obtain ⟨-, hsame⟩ | ⟨notice, -, -, hnotice, -⟩ := h.silent_or_clears e
  · rw [(h.after e).filled_iff]
    exact hsame.remembers hclosed (h.filled_iff.mp hi)
  · rw [hsilent] at hnotice
    cases hnotice

theorem filled_run (h : Represents t o) (hclosed : o.root.Closed) {edits : List Edit}
    (hsilent : t.notices edits = []) (hi : t.filled i) : (t.run edits).filled i := by
  induction edits generalizing t o with
  | nil => exact hi
  | cons e edits ih =>
    rw [Tree.notices, List.append_eq_nil_iff, Option.toList_eq_nil_iff] at hsilent
    exact ih (h.after e) (h.closed_after hclosed e) hsilent.2
      (h.filled_of_silent hclosed hsilent.1 hi)

/-- The way from a node to the root is one of different names in use. -/
theorem nodup_upwards (h : Represents t o) (hroot : o.root = .plug frames n) :
    (t.upwards n.id).Nodup ∧ ∀ i ∈ t.upwards n.id, t.contains i := by
  rw [h.upwards_plug hroot]
  have hle := Multiset.map_le_map (f := Prod.fst) (Node.heads_le_hears frames n)
  rw [← hroot, Multiset.map_coe, List.map_map] at hle
  refine ⟨Multiset.coe_nodup.mp (Multiset.nodup_of_le hle h.nodup_names), fun i hi => ?_⟩
  have hmem := Multiset.mem_of_le hle (Multiset.mem_coe.mpr hi)
  rw [Node.map_fst_hears, Multiset.mem_coe] at hmem
  exact (h.contains_iff_mem i).mpr hmem

/-- After a change, an expression is remembered exactly if it was before, and its condition is not on
the way from the origin to the root. -/
theorem filled_after (h : Represents t o) {e : Edit} {start : NodeId}
    (hclears : o.Clears (o.after e) start) (hi : (t.after e).contains i) :
    (t.after e).filled i = (t.filled i && !((t.after e).upwards start).contains i) := by
  have hafter := h.after e
  obtain ⟨outer, k, hk, rfl, -⟩ | ⟨-, -, hnone⟩ := hafter.known_or_unknown i
  · have hmem : k ∈ (o.after e).root.toList := by
      rw [hk]
      exact Node.mem_toList_plug_of_mem k.mem_toList_self
    have hstart : (t.after e).contains start := by
      rw [hafter.contains_iff_mem]
      exact hclears.mem
    rw [hafter.filled_plug hk]
    by_cases hon : start ∈ k.ids
    · rw [List.contains_iff_mem.mpr ((hafter.mem_upwards hk hstart).mpr hon), Bool.not_true,
        Bool.and_false, Node.filled, hclears.cleared k hmem hon]
      rfl
    · rw [show ((t.after e).upwards start).contains k.id = false by
          rw [Bool.eq_false_iff, ne_eq, List.contains_iff_mem]
          exact fun hway => hon ((hafter.mem_upwards hk hstart).mp hway),
        Bool.not_false, Bool.and_true]
      rcases hclears.beyond k hmem hon with hold | ⟨hcache, hnew⟩
      · exact (h.filled_of_mem hold).symm
      · rw [← h.contains_iff_mem] at hnew
        rw [Node.filled, hcache, Bool.eq_false_iff.mpr (mt contains_of_filled hnew)]
        rfl
  · rw [Tree.contains, hnone] at hi
    cases hi

/-- What a request builds, and what it leaves. -/
theorem compile_below (h : Represents t o) (hclosed : o.root.Closed) (hi : t.contains i) :
    ∃ c, t.compile i = .ok c ∧ c.built = (t.below i).countP (!t.filled ·) ∧
      (∀ j ∈ t.below i, c.result.filled j) ∧ c.result.forgetful = t.forgetful ∧
      ∀ j, t.filled j ∨ j ∉ t.below i → c.result.arena.get? j = t.arena.get? j := by
  obtain ⟨frames, n, hroot, rfl, -⟩ | ⟨-, -, hnone⟩ := h.known_or_unknown i
  · obtain ⟨c, hc, hbuilt, hrep⟩ := h.compile_plug hroot
    have hn : n.Closed := Node.Closed.of_plug (hroot ▸ hclosed)
    obtain ⟨hcount, hall⟩ := Node.compile_of_closed hn
    refine ⟨c, hc, ?_, fun j hj => ?_, forgetful_compile hc,
      fun j hj => h.get?_compile hroot hc hrep hj⟩
    · rw [hbuilt, hcount, h.countP_below hroot]
    · rw [h.mem_below hroot, ← Node.ids_compile] at hj
      obtain ⟨k, hk, rfl⟩ := List.mem_map.mp hj
      rw [hrep.filled_of_mem (Node.mem_toList_plug_of_mem hk)]
      exact hall k hk
  · rw [Tree.contains, hnone] at hi
    cases hi

/-- What is built after a change of a tree that remembers all expressions. -/
theorem compile_after (h : Represents t o) (hclosed : o.root.Closed)
    (hall : ∀ i, t.filled i = t.contains i) {e : Edit} {notice : Notice}
    (hnotice : t.notice? e = some notice) :
    ∃ origin d, t.origin? e = some origin ∧ (t.after e).compile t.root = .ok d ∧
      d.built = ((t.after e).upwards origin).length + (t.after e).names.countP fun i =>
        !t.contains i && !((t.after e).upwards origin).contains i := by
  obtain ⟨hnone, -⟩ | ⟨-, frames, n, -, horigin, hroot, hclears, -⟩ := h.silent_or_clears e
  · rw [hnotice] at hnone
    cases hnone
  have hafter := h.after e
  obtain ⟨hnodup, hlive⟩ := hafter.nodup_upwards hroot
  obtain ⟨d, hd, hbuilt, -⟩ :=
    hafter.compile_below (h.closed_after hclosed e) hafter.contains_root
  rw [hafter.below_eq_names] at hbuilt
  rw [h.root_after] at hd
  refine ⟨n.id, d, horigin, hd, hbuilt.trans ?_⟩
  set u := t.after e
  set way := u.upwards n.id
  have hfilled {i : NodeId} (hi : i ∈ u.names) :
      u.filled i = (t.contains i && !way.contains i) := by
    rw [h.filled_after hclears (Tree.mem_names.mp hi), hall]
  have hway : (u.names.filter way.contains).Perm way := by
    rw [List.perm_ext_iff_of_nodup (u.nodup_names.filter _) hnodup]
    intro i
    rw [List.mem_filter, List.contains_iff_mem, Tree.mem_names]
    exact and_iff_right_of_imp (hlive i)
  calc u.names.countP (!u.filled ·)
      = (u.names.filter way.contains).countP (!u.filled ·) +
          (u.names.filter (!way.contains ·)).countP (!u.filled ·) :=
        List.countP_eq_countP_filter_add ..
    _ = u.names.countP way.contains + u.names.countP fun i =>
          !t.contains i && !way.contains i := by
        rw [List.countP_filter, List.countP_filter]
        congr 1 <;> refine List.countP_congr fun i hi => ?_ <;> rw [hfilled hi] <;>
          cases t.contains i <;> cases way.contains i <;> decide
    _ = way.length + u.names.countP fun i => !t.contains i && !way.contains i := by
        rw [List.countP_eq_length_filter (p := way.contains), hway.length_eq]

/-- After a request, a second one builds nothing if nothing is announced in between. -/
theorem compile_again (h : Represents t o) (hclosed : o.root.Closed) {c : Compiled Tree}
    (hc : t.compile i = .ok c) {edits : List Edit} (hsilent : c.result.notices edits = []) :
    ∃ d, (c.result.run edits).compile i = .ok d ∧ d.built = 0 := by
  have hi : t.contains i := by
    rw [← h.isOk_compile, hc]
    rfl
  obtain ⟨c', hc', -, hall, -⟩ := h.compile_below hclosed hi
  cases hc.symm.trans hc'
  have hafter := h.after (.compile i)
  rw [Tree.after_compile hc] at hafter
  have hfilled := hafter.filled_run (h.closed_after hclosed _) hsilent (hall i (h.self_below hi))
  exact (hafter.run edits).compile_of_filled hfilled

/-- A tree that represents an outline whose remembered expressions are closed downwards builds no
expression twice. -/
theorem recompiles (h : Represents t o) (hclosed : o.root.Closed) : t.Recompiles where
  closed hid hi := by
    obtain ⟨k, hk, rfl, hfilled⟩ := h.filled_iff.mp hid
    obtain ⟨frames, hroot⟩ := Node.exists_plug_of_mem hk
    obtain ⟨j, hj, rfl⟩ := List.mem_map.mp ((h.mem_below hroot).mp hi)
    rw [h.filled_of_mem (hroot ▸ Node.mem_toList_plug_of_mem hj)]
    exact hclosed k hk hfilled j hj
  compile hid := h.compile_below hclosed hid
  unknown hid := by
    rw [Tree.compile, Arena.compileAt_unknown (Option.not_isSome_iff_eq_none.mp hid)]
    rfl
  silent {e} h := by
    rw [Tree.notice?]
    rcases h with ⟨cause, hanswer⟩ | ⟨⟨block, candidates, rfl⟩, hanswer⟩ |
      ⟨⟨block, candidates, rfl⟩, hanswer⟩ <;> rw [hanswer] <;> rfl
  again hc _ hsilent := h.compile_again hclosed hc hsilent
  forgets {e notice} hnotice := by
    obtain ⟨hnone, -⟩ | ⟨notice', frames, n, hnotice', horigin, hroot, hclears, hevents⟩ :=
      h.silent_or_clears e
    · rw [hnotice] at hnone
      cases hnone
    cases hnotice.symm.trans hnotice'
    have hafter := h.after e
    obtain ⟨hnodup, hlive⟩ := hafter.nodup_upwards hroot
    refine ⟨n.id, horigin, hnodup, hlive, ?_, ?_, fun i hi => h.filled_after hclears hi⟩
    · rw [hafter.getLast?_upwards hroot, h.root_after]
    · rw [hafter.events_upwards hroot, hevents]
  once {c} hc e notice hnotice := by
    obtain ⟨c', hc', -, hall, hforgetful, -⟩ := h.compile_below hclosed h.contains_root
    cases hc.symm.trans hc'
    have hafter := h.after (.compile t.root)
    have hroot := h.root_after (.compile t.root)
    rw [Tree.after_compile hc] at hafter hroot
    rw [← hroot]
    refine hafter.compile_after (h.closed_after hclosed _) (fun i => ?_) hnotice
    rw [Bool.eq_iff_iff]
    refine ⟨contains_of_filled, fun hi => hall i ?_⟩
    rw [← Tree.contains_forgetful, hforgetful, Tree.contains_forgetful] at hi
    rwa [h.below_eq_names, Tree.mem_names]

end Represents

namespace Tree

/-- In every tree that comes about by edits, a request for an expression builds those that are
missing below the condition, and after a change those are missing that the change concerns. -/
theorem recompiles_run (factory : OperatorFactory) (edits : List Edit) :
    ((ofFactory factory).run edits).Recompiles :=
  (represents_run factory edits).recompiles (closed_run factory edits)

/-- With all expressions remembered, a block with two blocks in it comes: there are two conditions on
the way, and two new ones elsewhere. Then these two are grouped: there are three on the way, and the
moved ones keep their expressions. -/
example (factory : OperatorFactory) :
    let t := (ofFactory factory).run
      [.compile ⟨0, 0⟩, .add ⟨0, 0⟩ (.block .and [.block .or [], .block .or []])]
    let u := t.run [.compile ⟨0, 0⟩, .group ⟨1, 0⟩ [⟨2, 0⟩, ⟨3, 0⟩]]
    (t.compile t.root).toOption.map (·.built) = some (2 + 2) ∧
      (u.compile u.root).toOption.map (·.built) = some 3 := by
  cbv

end Tree

end EntityQuery
