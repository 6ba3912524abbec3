import EntityQuery.Proofs.Tree.Steps

/-!
# Edits of one condition

The edits that change the logical operator, the listeners or the content of one condition are edits
of the outline.

* `Represents.setLogical`, `Represents.subscribe`, `Represents.unsubscribe` — for every condition.
* `Represents.setProperty`, `Represents.setOperator`, `Represents.setValue`, `Represents.setRaw` —
  for leaves.
-/

namespace EntityQuery

namespace Represents

variable {t : Tree} {o : Outline}

/-! ### Changes of one condition -/

/-- The head of a node is changed. -/
theorem modifyEntry (h : Represents t o) {id : NodeId} {n : Node} {f : Entry → Entry}
    {g : Head → Head} (hn : o.node id = .ok n) (hid : ∀ head, (g head).id = head.id)
    (hfg : ∀ parent? (n : Node), f (n.entry parent?) = (n.withHead g).entry parent?) :
    ∃ a, TreeM.modifyEntry id f t = .ok () { t with arena := a } ∧
      Represents { t with arena := a } (o.modify id (Node.withHead g)) ∧
      id ∈ (o.modify id (Node.withHead g)).root.ids := by
  obtain ⟨frames, hroot, rfl⟩ := Outline.exists_plug_of_node h.nodup hn
  have hentry : t.entry n.id = .ok (n.entry (o.root.parent? n.id)) := by
    rw [h.entry_eq, hn]
    rfl
  have hstores := h.stores
  rw [hroot] at hstores
  have hname : (n.withHead g).id = n.id := by
    rw [Node.id, Node.head_withHead, hid]
    rfl
  refine ⟨t.arena.modify n.id f, ?_, ?_, ?_⟩
  · rw [TreeM.modifyEntry, TreeM.bind_ok (TreeM.ask_ok hentry)]
    rfl
  · rw [Outline.modify, h.update_eq hroot]
    exact h.replace hroot hname (by cases n <;> rfl)
      (hstores.modify_head (hid _) (hfg _ n)) ((Arena.numbering_modify ..).trans h.slots)
  · rw [Outline.modify, h.update_eq hroot]
    exact Node.mem_ids_plug frames (hname ▸ (n.withHead g).id_mem_ids)

theorem setLogical (h : Represents t o) (id : NodeId) (logical : Logical) :
    Simulates (TreeM.setLogical id logical) t (o.setLogical id logical) := by
  rw [Outline.setLogical]
  cases hn : o.node id with
  | error e =>
    have hentry := h.entry_eq id
    rw [hn] at hentry
    exact TreeM.bind_error (TreeM.modifyEntry_error hentry)
  | ok n =>
    obtain ⟨a, ha, hrep, hid⟩ := h.modifyEntry (f := ({ · with logical }))
      (g := ({ · with logical })) hn (fun _ => rfl) fun _ n => by cases n <;> rfl
    exact .of_changed hrep hid rfl (TreeM.bind_ok ha)

theorem subscribe (h : Represents t o) (id : NodeId) :
    Simulates (TreeM.subscribe id) t (o.subscribe id) := by
  rw [Outline.subscribe]
  cases hn : o.node id with
  | error e =>
    have hentry := h.entry_eq id
    rw [hn] at hentry
    exact (TreeM.bind_ok TreeM.get_eq).trans (TreeM.bind_error (TreeM.modifyEntry_error hentry))
  | ok n =>
    let listener := o.nextListener
    obtain ⟨a, ha, hrep, -⟩ := h.modifyEntry
      (f := fun e => { e with listeners := e.listeners ++ [listener] })
      (g := fun head => { head with listeners := head.listeners ++ [listener] }) hn
      (fun _ => rfl) fun _ n => by cases n <;> rfl
    rw [show listener = t.nextListener from h.nextListener.symm] at ha
    refine ⟨{ t with arena := a, nextListener := o.nextListener + 1 }, ?_, ?_, ?_⟩
    · rw [← h.nextListener]
      exact TreeM.bind_ok ha
    · exact ⟨hrep.stores, hrep.slots, hrep.root, hrep.isBlock, hrep.factory, rfl⟩
    · exact (List.append_nil _).symm

/-- A listener is left out if it is there. -/
theorem length_filter_ne (listeners : List Nat) (listener : Nat) :
    ((listeners.filter (· != listener)).length != listeners.length) =
      listeners.contains listener := by
  rw [Bool.eq_iff_iff, bne_iff_ne, ne_eq, List.length_filter_eq_length_iff, List.contains_iff_mem]
  simp

theorem unsubscribe (h : Represents t o) (id : NodeId) (listener : Nat) :
    Simulates (TreeM.unsubscribe id listener) t (.ok (o.unsubscribe id listener)) := by
  let forget (head : Head) : Head :=
    { head with listeners := head.listeners.filter (· != listener) }
  rw [Outline.unsubscribe]
  cases hn : o.root.find? id with
  | none =>
    have hroot : o.root.update id (Node.withHead forget) = o.root :=
      Node.update_of_not_mem (Node.find?_eq_none.mp hn)
    refine ⟨t, ?_, ?_, (List.append_nil _).symm⟩
    · rw [TreeM.unsubscribe, TreeM.bind_ok TreeM.get_eq, h.get?_eq_none hn]
      rfl
    · rw [Outline.modify, hroot]
      exact h
  | some n =>
    have hnode : o.node id = .ok n := by rw [Outline.node, hn]
    obtain ⟨frames, hroot, rfl⟩ := Outline.exists_plug_of_node h.nodup hnode
    let f (e : Entry) : Entry := { e with listeners := n.head.listeners.filter (· != listener) }
    have hstores := h.stores
    rw [hroot] at hstores
    refine ⟨{ t with arena := t.arena.modify n.id f }, ?_, ?_, (List.append_nil _).symm⟩
    · rw [TreeM.unsubscribe, TreeM.bind_ok TreeM.get_eq, (h.includes hroot).get?_eq]
      simp only [Option.any_some, ← length_filter_ne]
      rfl
    · rw [Outline.modify, h.update_eq hroot]
      exact h.replace hroot (by cases n <;> rfl) (by cases n <;> rfl)
        (hstores.modify_head rfl (by cases n <;> rfl)) ((Arena.numbering_modify ..).trans h.slots)

/-! ### Changes of a leaf -/

/-- The end of an edit that gives a leaf another content. -/
theorem setContent (h : Represents t o) {call : TreeM Unit} {frames : List NodeFrame} {head : Head}
    {content after : Leaf} {a : Arena} {change : Change}
    (hroot : o.root = Node.plug frames (.leaf head content)) (hnum : a.numbering = o.slots)
    (hes : a.Stores ((Node.plug frames (.leaf head after)).entries none))
    (hcall : call t = TreeM.changed head.id ⟨head.id, change⟩ { t with arena := a }) :
    Simulates call t (.ok (o.setContent head.id change after)) := by
  rw [Outline.setContent_plug h.nodup hroot]
  refine .of_changed (u := { t with arena := a }) ?_ ?_ rfl hcall
  · exact h.replace hroot rfl rfl hes hnum
  · exact Node.mem_ids_plug frames (Node.leaf head after).id_mem_ids

/-- An edit that only gives a leaf another content. -/
theorem modifyContent (h : Represents t o) {id : NodeId} {f : Leaf → Leaf} {change : Change}
    {spec : Except ConditionError (Outline.Outcome Unit)}
    (hspec : spec = (o.content id).map fun content => o.setContent id change (f content)) :
    Simulates (do TreeM.modifyContent id f; TreeM.changed id ⟨id, change⟩) t spec := by
  rw [hspec]
  cases hcontent : o.content id with
  | error e => exact TreeM.bind_error (TreeM.modifyContent_error ((h.content_eq id).trans hcontent))
  | ok content =>
    obtain ⟨frames, head, hroot, rfl⟩ := Outline.exists_plug_of_content h.nodup hcontent
    obtain ⟨a, ha, hnum, hes⟩ := TreeM.modifyContent_spec f (hroot ▸ h.stores)
    exact h.setContent hroot (hnum.trans h.slots) hes (TreeM.bind_ok ha)

theorem setOperator (h : Represents t o) (id : NodeId) (operator : Operator) :
    Simulates (TreeM.setOperator id operator) t (o.setOperator id operator) :=
  h.modifyContent rfl

theorem setValue (h : Represents t o) (id : NodeId) (value : Value) :
    Simulates (TreeM.setValue id value) t (o.setValue id value) :=
  h.modifyContent rfl

theorem setRaw (h : Represents t o) (id : NodeId) (raw : String) :
    Simulates (TreeM.setRaw id raw) t (o.setRaw id raw) := by
  rw [Outline.setRaw]
  cases hcontent : o.content id with
  | error e => exact TreeM.bind_error (TreeM.ask_error ((h.content_eq id).trans hcontent))
  | ok content =>
    let parsed? := content.operator.parseRaw? content.path.kind raw
    have hset := (h.setValue id (parsed?.getD .null)).map fun _ => parsed?.isSome
    refine hset.congr ?_
    rw [TreeM.setRaw, TreeM.bind_ok (TreeM.ask_ok ((h.content_eq id).trans hcontent)),
      ← bind_pure_comp]

theorem setProperty (h : Represents t o) (id : NodeId) (path : Path) :
    Simulates (TreeM.setProperty id path) t (o.setProperty id path) := by
  rw [Outline.setProperty, ← h.factory]
  cases hcontent : o.content id with
  | error e =>
    exact (TreeM.bind_ok TreeM.get_eq).trans
      (TreeM.bind_error (TreeM.ask_error ((h.content_eq id).trans hcontent)))
  | ok content =>
    have hask : TreeM.ask (·.content id) t = .ok content t :=
      TreeM.ask_ok ((h.content_eq id).trans hcontent)
    obtain ⟨frames, head, hroot, rfl⟩ := Outline.exists_plug_of_content h.nodup hcontent
    let refit (content : Leaf) : Leaf := Leaf.fitted { content with path }
    simp only
    by_cases hoffered : (t.factory.offerFor path).contains content.operator = true
    · rw [if_pos hoffered]
      obtain ⟨a, ha, hnum, hes⟩ := TreeM.modifyContent_spec refit (hroot ▸ h.stores)
      refine h.setContent hroot (hnum.trans h.slots) hes ?_
      rw [TreeM.setProperty, TreeM.bind_ok TreeM.get_eq, TreeM.bind_ok hask,
        if_neg (by simp [hoffered])]
      exact TreeM.bind_ok ha
    · rw [if_neg hoffered]
      cases hfirst : (t.factory.offerFor path).head? with
      | none =>
        show TreeM.setProperty head.id path t = _
        rw [TreeM.setProperty, TreeM.bind_ok TreeM.get_eq, TreeM.bind_ok hask,
          if_pos (by simp [hoffered]), hfirst]
        rfl
      | some operator =>
        obtain ⟨a, ha, hanum, haes⟩ := TreeM.modifyContent_spec ({ · with operator })
          (hroot ▸ h.stores)
        obtain ⟨b, hb, hbnum, hbes⟩ :=
          TreeM.modifyContent_spec (t := { t with arena := a }) refit haes
        refine h.setContent hroot (hbnum.trans (hanum.trans h.slots)) hbes ?_
        rw [TreeM.setProperty, TreeM.bind_ok TreeM.get_eq, TreeM.bind_ok hask,
          if_pos (by simp [hoffered]), hfirst]
        exact (TreeM.bind_ok ha).trans (TreeM.bind_ok hb)

end Represents

end EntityQuery
