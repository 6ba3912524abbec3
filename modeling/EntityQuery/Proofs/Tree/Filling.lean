import EntityQuery.Proofs.Tree.Recompiling

/-!
# How far down expressions are remembered

A node that remembers its expression remembers those of all nodes below it. So compiling a node
builds the expressions that are missing below it, each of them once, and finds the others.

* `Node.filled`, `Node.Closed` — a node that remembers its expression; such nodes are closed
  downwards.
* `Node.compile_of_closed` — compiling builds one expression for every node without one.
* `Node.mem_entries_compile` — it leaves the entries of all other nodes alone.
* `Node.Remembers`, `Outline.Silent.remembers` — an edit that announces nothing forgets nothing.
* `Outline.Step.closed`, `closed_run` — nodes that remember their expressions stay closed downwards.
-/

namespace EntityQuery

namespace Node

/-- Whether a node remembers its expression. -/
def filled (n : Node) : Bool := n.head.cache.isSome

/-- Below a node that remembers its expression, all nodes do. -/
def Closed (n : Node) : Prop := ∀ k ∈ n.toList, k.filled → ∀ below ∈ k.toList, below.filled

theorem closed_iff {n : Node} :
    n.Closed ↔ (n.filled → ∀ c ∈ n.children, c.filled) ∧ ∀ c ∈ n.children, c.Closed := by
  constructor
  · intro h
    refine ⟨fun hfilled c hc => ?_, fun c hc k hk => h k (mem_toList_of_child hc hk)⟩
    exact h n n.mem_toList_self hfilled c (mem_toList_of_child hc c.mem_toList_self)
  · rintro ⟨hself, hchildren⟩ k hk hfilled below hbelow
    rcases mem_toList.mp hk with rfl | ⟨c, hc, hk⟩
    · rcases mem_toList.mp hbelow with rfl | ⟨c, hc, hbelow⟩
      · exact hfilled
      · exact hchildren c hc c c.mem_toList_self (hself hfilled c hc) below hbelow
    · exact hchildren c hc k hk hfilled below hbelow

theorem Closed.of_plug {frames : List NodeFrame} {n : Node} (h : (plug frames n).Closed) :
    n.Closed :=
  fun k hk => h k (mem_toList_plug_of_mem hk)

theorem closed_of_all_filled {n : Node} (h : ∀ k ∈ n.toList, k.filled) : n.Closed := by
  intro k hk _ below hbelow
  obtain ⟨frames, rfl⟩ := exists_plug_of_mem hk
  exact h below (mem_toList_plug_of_mem hbelow)

/-! ### Compiling -/

theorem result_compileAll (before? : Option Expr) (ns : List Node) :
    (compileAll before? ns).result = ns.map (·.compile.result) := by
  induction ns generalizing before? with
  | nil => rfl
  | cons n ns ih => rw [compileAll, List.map_cons, ih]

theorem built_compileAll (before? : Option Expr) (ns : List Node) :
    (compileAll before? ns).built = (ns.map (·.compile.built)).sum := by
  induction ns generalizing before? with
  | nil => rfl
  | cons n ns ih => rw [compileAll, List.map_cons, List.sum_cons, ih]

/-- A remembered expression is found, and nothing is built. -/
theorem compile_of_filled {n : Node} (h : n.filled) :
    n.compile.result = n ∧ n.compile.built = 0 := by
  obtain ⟨e?, he⟩ := Option.isSome_iff_exists.mp h
  cases n with
  | leaf head content => rw [compile, show head.cache = _ from he]; exact ⟨rfl, rfl⟩
  | block head children => rw [compile, show head.cache = _ from he]; exact ⟨rfl, rfl⟩

/-- Without a remembered expression, the expressions of the children are asked for, and one more is
built. -/
theorem compile_block_of_empty {head : Head} {children : List Node}
    (h : (block head children).filled = false) :
    ∃ cache, (block head children).compile.result =
        .block { head with cache := some cache } (children.map (·.compile.result)) ∧
      (block head children).compile.built = (children.map (·.compile.built)).sum + 1 := by
  have hcache : head.cache = none := Option.isNone_iff_eq_none.mp (Option.isSome_eq_false_iff.mp h)
  rw [compile, hcache]
  exact ⟨_, congrArg _ (result_compileAll none children),
    congrArg (· + 1) (built_compileAll none children)⟩

/-- Compiling builds one expression for every node without one, and all are remembered. -/
theorem compile_of_closed {n : Node} (h : n.Closed) :
    n.compile.built = n.toList.countP (!·.filled) ∧ ∀ k ∈ n.compile.result.toList, k.filled := by
  induction n using nested with
  | leaf head content =>
    rw [compile, toList, List.countP_singleton, filled, Node.head]
    cases hcache : head.cache with
    | some e? => simp [toList, filled, Node.head, hcache]
    | none => simp [toList, filled, Node.head]
  | block head children ih =>
    cases hfilled : (block head children).filled with
    | true =>
      obtain ⟨hresult, hbuilt⟩ := compile_of_filled hfilled
      have hall := h _ (mem_toList_self _) hfilled
      rw [hresult, hbuilt]
      exact ⟨(List.countP_eq_zero.mpr fun k hk => by simp [hall k hk]).symm, hall⟩
    | false =>
      obtain ⟨cache, hresult, hbuilt⟩ := compile_block_of_empty hfilled
      have hchildren := (closed_iff.mp h).2
      have hcounts : children.map (·.compile.built) =
          children.map fun c => c.toList.countP (!·.filled) :=
        List.map_congr_left fun c hc => (ih c hc (hchildren c hc)).1
      rw [hresult, hbuilt, hcounts]
      constructor
      · rw [toList_block, List.countP_cons_of_pos (by rw [hfilled]; rfl), List.countP_flatMap]
        rfl
      · intro k hk
        rcases mem_toList.mp hk with rfl | ⟨c, hc, hk⟩
        · rfl
        · obtain ⟨child, hchild, rfl⟩ := List.mem_map.mp hc
          exact (ih child hchild (hchildren child hchild)).2 k hk

theorem ids_compile (n : Node) : n.compile.result.ids = n.ids := by
  rw [← ids_forgetful, forgetful_compile, ids_forgetful]

/-- Where an expression is remembered, compiling leaves the entry alone. -/
theorem mem_entries_compile {n : Node} {parent? : Option NodeId} {x : NodeId × Entry}
    (hx : x ∈ n.entries parent?) (hcache : x.2.cache.isSome) :
    x ∈ n.compile.result.entries parent? := by
  induction n using nested generalizing parent? with
  | leaf head content =>
    rw [entries, Multiset.mem_singleton] at hx
    subst hx
    rw [(compile_of_filled (n := .leaf head content) hcache).1]
    exact Multiset.mem_singleton_self _
  | block head children ih =>
    cases hfilled : (block head children).filled with
    | true =>
      rw [(compile_of_filled hfilled).1]
      exact hx
    | false =>
      obtain ⟨cache, hresult, -⟩ := compile_block_of_empty hfilled
      rw [entries, Multiset.mem_cons] at hx
      rcases hx with rfl | hx
      · exact absurd (hfilled.symm.trans hcache) Bool.false_ne_true
      · obtain ⟨c, hc, hx⟩ := mem_allEntries.mp hx
        rw [hresult, entries]
        exact Multiset.mem_cons_of_mem
          (mem_allEntries.mpr ⟨_, List.mem_map_of_mem hc, ih c hc hx⟩)

end Node

namespace Arena

theorem forgetful_remember (a : Arena) (id : NodeId) (e? : Option Expr) :
    (a.remember id e?).forgetful = a.forgetful := by
  have hslot (s : Slot) : (s.entry?.map fun e => { e with cache := some e? }).map Entry.forgetful =
      s.entry?.map Entry.forgetful := by
    rw [Option.map_map]
    rfl
  rw [remember, modify, forgetful, forgetful]
  congr 1
  refine List.ext_getElem? fun index => ?_
  rw [List.getElem?_map, List.getElem?_map, List.getElem?_modify]
  cases a.slots[index]? with
  | none => rfl
  | some s =>
    simp only [Option.map_eq_map, Option.map_some]
    split
    · split
      · rw [hslot]
      · rfl
    · rfl

theorem forgetful_compileAll
    {compile : Arena → NodeId → Except ConditionError (Compiled Arena)}
    (hcompile : ∀ a id c, compile a id = .ok c → c.result.forgetful = a.forgetful) (a : Arena)
    (before? : Option Expr) (ids : List NodeId) :
    (compileAll compile a before? ids).result.forgetful = a.forgetful := by
  induction ids generalizing a before? with
  | nil => rfl
  | cons id ids ih =>
    rw [compileAll]
    cases hc : compile a id with
    | error cause => exact ih a before?
    | ok child => exact (ih _ _).trans (hcompile a id child hc)

/-- Compiling changes nothing but which expressions are remembered. -/
theorem forgetful_compileAt {levels : Nat} {a : Arena} {id : NodeId} {c : Compiled Arena}
    (h : compileAt levels a id = .ok c) : c.result.forgetful = a.forgetful := by
  induction levels generalizing a id c with
  | zero => cases h
  | succ levels ih =>
    rw [compileAt] at h
    split at h
    · cases h
    · split at h
      · cases h
        rfl
      · split at h
        · cases h
          exact forgetful_remember ..
        · cases h
          exact (forgetful_remember ..).trans (forgetful_compileAll (fun _ _ _ => ih) ..)

end Arena

/-! ### Edits that announce nothing -/

namespace Node

/-- Another node comes in the place of a node that remembers its expression only if it does. -/
theorem closed_plug {frames : List NodeFrame} {m n : Node} (h : (plug frames m).Closed)
    (hn : n.Closed) (hfilled : m.filled → n.filled) : (plug frames n).Closed := by
  induction frames generalizing m n with
  | nil => exact hn
  | cons frame frames ih =>
    have hattach : (frame.attach m).Closed :=
      (show (plug frames (frame.attach m)).Closed from h).of_plug
    obtain ⟨hself, hchildren⟩ := closed_iff.mp hattach
    refine ih h (closed_iff.mpr ⟨fun hblock c hc => ?_, fun c hc => ?_⟩) fun hblock => hblock
    · rcases frame.mem_children_attach.mp hc with rfl | hc
      · exact hfilled (hself hblock m (frame.mem_children_attach.mpr (Or.inl rfl)))
      · exact hself hblock c (frame.mem_children_attach.mpr (Or.inr hc))
    · rcases frame.mem_children_attach.mp hc with rfl | hc
      · exact hn
      · exact hchildren c (frame.mem_children_attach.mpr (Or.inr hc))

/-- A name of a node that remembers its expression. -/
def Remembers (n : Node) (id : NodeId) : Prop := ∃ k ∈ n.toList, k.id = id ∧ k.filled

theorem remembers_iff {n : Node} {id : NodeId} :
    n.Remembers id ↔ n.id = id ∧ n.filled ∨ ∃ c ∈ n.children, c.Remembers id := by
  constructor
  · rintro ⟨k, hk, hid⟩
    rcases mem_toList.mp hk with rfl | ⟨c, hc, hk⟩
    · exact Or.inl hid
    · exact Or.inr ⟨c, hc, k, hk, hid⟩
  · rintro (hid | ⟨c, hc, k, hk, hid⟩)
    · exact ⟨n, n.mem_toList_self, hid⟩
    · exact ⟨k, mem_toList_of_child hc hk, hid⟩

theorem remembers_plug {frames : List NodeFrame} {m n : Node} {id : NodeId}
    (h : m.Remembers id → n.Remembers id) (hm : (plug frames m).Remembers id) :
    (plug frames n).Remembers id := by
  induction frames generalizing m n with
  | nil => exact h hm
  | cons frame frames ih =>
    refine ih (m := frame.attach m) (n := frame.attach n) (fun hm => ?_) hm
    rw [remembers_iff] at hm ⊢
    refine hm.imp_right ?_
    rintro ⟨c, hc, hid⟩
    rcases frame.mem_children_attach.mp hc with rfl | hc
    · exact ⟨n, frame.mem_children_attach.mpr (Or.inl rfl), h hid⟩
    · exact ⟨c, frame.mem_children_attach.mpr (Or.inr hc), hid⟩

end Node

namespace Outline

variable {o p : Outline} {e : Edit} {x : Outcome EditAnswer}

theorem Silent.closed (hsilent : o.Silent p) (h : o.root.Closed) : p.root.Closed := by
  obtain ⟨frames, m, n, ho, hp, hn⟩ := hsilent
  rw [ho] at h
  rw [hp]
  rcases hn with rfl | ⟨f, rfl⟩
  · have hall := (Node.compile_of_closed h.of_plug).2
    exact Node.closed_plug h (Node.closed_of_all_filled hall)
      fun _ => hall _ (Node.mem_toList_self _)
  · have hm := Node.closed_iff.mp h.of_plug
    refine Node.closed_plug h (Node.closed_iff.mpr ?_) ?_ <;> cases m <;> first | exact hm | exact id

/-- An edit that announces nothing forgets nothing. -/
theorem Silent.remembers (hsilent : o.Silent p) (h : o.root.Closed) {id : NodeId}
    (hid : o.root.Remembers id) : p.root.Remembers id := by
  obtain ⟨frames, m, n, ho, hp, hn⟩ := hsilent
  rw [ho] at h hid
  rw [hp]
  refine Node.remembers_plug (fun hm => ?_) hid
  rcases hn with rfl | ⟨f, rfl⟩
  · obtain ⟨k, hk, rfl, -⟩ := hm
    have hmem := Node.mem_ids_of_mem hk
    rw [← Node.ids_compile] at hmem
    obtain ⟨k', hk', hsame⟩ := List.mem_map.mp hmem
    exact ⟨k', hk', hsame, (Node.compile_of_closed h.of_plug).2 k' hk'⟩
  · rw [Node.remembers_iff] at hm ⊢
    cases m <;> exact hm

/-- A change leaves nodes that remember their expressions closed downwards: it forgets the
expressions of all nodes that have something else below them. -/
theorem Clears.closed {start : NodeId} (hclears : o.Clears p start) (h : o.root.Closed) :
    p.root.Closed := by
  intro k hk hfilled
  have hsome {k : Node} (hfilled : k.filled) : k.head.cache ≠ none :=
    Option.isSome_iff_ne_none.mp hfilled
  have hbeyond : start ∉ k.ids := fun hon => hsome hfilled (hclears.cleared k hk hon)
  rcases hclears.beyond k hk hbeyond with hold | ⟨hcache, -⟩
  · exact h k hold hfilled
  · exact absurd hcache (hsome hfilled)

/-- Every step leaves nodes that remember their expressions closed downwards. -/
theorem Step.closed (hstep : o.Step e x) (hnodup : o.root.ids.Nodup) (h : o.root.Closed)
    (hafter : x.outline.root.ids.Nodup) : x.outline.root.Closed := by
  obtain ⟨-, hsilent⟩ | ⟨-, start, -, -, hclears⟩ := hstep.silent_or_clears hnodup hafter
  · exact hsilent.closed h
  · exact hclears.closed h

end Outline

namespace Represents

variable {t : Tree} {o : Outline}

theorem closed_after (hrep : Represents t o) (h : o.root.Closed) (e : Edit) :
    (o.after e).root.Closed := by
  have hnodup := (hrep.after e).nodup
  rw [Outline.after] at hnodup ⊢
  cases hx : o.perform e with
  | error cause => exact h
  | ok x =>
    rw [hx] at hnodup
    exact (Outline.step_perform hrep.nodup hx).closed hrep.nodup h hnodup

theorem closed_run (hrep : Represents t o) (h : o.root.Closed) (edits : List Edit) :
    (o.run edits).root.Closed := by
  induction edits generalizing t o with
  | nil => exact h
  | cons e edits ih => exact ih (hrep.after e) (hrep.closed_after h e)

end Represents

/-- In every outline that comes about by edits, nodes that remember their expressions are closed
downwards. -/
theorem closed_run (factory : OperatorFactory) (edits : List Edit) :
    ((Outline.ofFactory factory).run edits).root.Closed :=
  (represents_ofFactory factory).closed_run
    (Node.closed_iff.mpr ⟨fun _ => List.forall_mem_nil _, List.forall_mem_nil _⟩) edits

end EntityQuery
