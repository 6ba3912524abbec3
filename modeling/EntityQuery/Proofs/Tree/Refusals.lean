import EntityQuery.Proofs.Tree.Unknown

/-!
# Calls that fail or change nothing

A call begins with checks of its arguments. If one of them fails, the call fails for that reason and
leaves the whole tree as it is; otherwise the call succeeds, whatever it looks up after its first
change. Calls that succeed without an effect leave the whole tree as it is, too.

* `Edit.check` — the checks with which a call begins.
* `Represents.answer_check` — a call fails exactly if they do.
* `Represents.perform_group_none`, `Represents.perform_ungroup_false`,
  `Tree.perform_unsubscribe_false` — calls without an effect.
* `Tree.AllOrNothing` — a call has its effect or none at all; `Tree.allOrNothing_run`.
-/

namespace EntityQuery

/-- The checks with which a call begins. -/
def Edit.check (t : Tree) : Edit → Except ConditionError Unit
  | .add block _ | .group block _ | .ungroup block _ | .clear block => do
    let _ ← t.children block
  | .remove id => do
    if id = t.root then throw .cannotRemoveRoot
    let _ ← t.entry id
  | .createNew block path operator? _ => do
    let _ ← t.children block
    if (operator?.or (t.factory.defaultFor? path)).isNone then throw (.noOperator path.fullName)
  | .createFromTemplate block => do
    let _ ← t.children block
    if (t.firstLeaf? block).isNone then throw (.noTemplateCondition block)
  | .setProperty id path => do
    let _ ← t.content id
    if (t.factory.offerFor path).isEmpty then throw (.noOperator path.fullName)
  | .setOperator id _ | .setValue id _ | .setRaw id _ => do
    let _ ← t.content id
  | .setLogical id _ | .subscribe id | .compile id => do
    let _ ← t.entry id
  | .unsubscribe .. => pure ()

/-- Whether something succeeds, and why not. -/
def verdict {α : Type} (x : Except ConditionError α) : Except ConditionError Unit :=
  x.map fun _ => ()

section Verdict

variable {α β : Type}

theorem verdict_map (x : Except ConditionError α) (f : α → β) :
    verdict (x.map f) = verdict x := by
  cases x <;> rfl

end Verdict

theorem TreeM.map_ok {α β : Type} {call : TreeM α} {f : α → β} {answer : α} {t u : Tree}
    (h : call t = .ok answer u) : (f <$> call) t = .ok (f answer) u := by
  show EStateM.map f call t = _
  rw [EStateM.map, h]

/-- A call that leaves the tree as it is. -/
theorem Tree.perform_of_call {t : Tree} {e : Edit} {answer : EditAnswer}
    (h : e.call t = .ok answer t) : t.perform e = ⟨.ok answer, t, []⟩ := by
  simp only [perform, outcome, h, List.drop_length]

namespace Outline

variable {o : Outline}

/-- The first leaf of a node has a content. -/
theorem content_firstLeaf? (hnodup : o.root.ids.Nodup) {id first : NodeId}
    (h : (o.root.find? id).bind Node.firstLeaf? = some first) :
    ∃ content, o.content first = .ok content := by
  obtain ⟨n, hn, hfirst⟩ := Option.bind_eq_some_iff.mp h
  obtain ⟨frames, hroot, -⟩ := Node.exists_plug_of_find? hnodup hn
  obtain ⟨k, hk, rfl⟩ := Option.map_eq_some_iff.mp hfirst
  obtain ⟨inner, rfl⟩ := Node.exists_plug_of_mem (List.mem_of_find?_eq_some hk)
  rw [← Node.plug_append] at hroot
  cases k with
  | leaf head content =>
    have hleaf := node_plug hnodup hroot
    refine ⟨content, ?_⟩
    rw [Outline.content, hleaf]
  | block head children => cases List.find?_some hk

theorem verdict_add (block : NodeId) (c : Condition) :
    verdict (o.add block c) = verdict (o.children block) := by
  rw [add, verdict_map]

/-- With children and an operator, nothing can go wrong any more. -/
theorem verdict_createNew {block : NodeId} {children : List Node} {path : Path}
    {operator? : Option Operator} {value? : Option Value} {operator : Operator}
    (hchildren : o.children block = .ok children)
    (hoperator : operator?.or (o.factory.defaultFor? path) = some operator) :
    verdict (o.createNew block path operator? value?) = .ok () := by
  simp only [createNew, hchildren, hoperator, verdict_add]
  rfl

theorem verdict_remove (hnodup : o.root.ids.Nodup) {id : NodeId} (hid : id ≠ o.root.id) :
    verdict (o.remove id) = verdict (o.node id) := by
  cases hn : o.node id with
  | error e =>
    rw [remove, if_neg hid, hn]
    rfl
  | ok n =>
    obtain ⟨frames, hroot, rfl⟩ := exists_plug_of_node hnodup hn
    cases frames with
    | nil => exact absurd (congrArg Node.id hroot).symm hid
    | cons frame frames =>
      rw [remove_plug hnodup hroot]
      rfl

theorem verdict_group (block : NodeId) (candidates : List NodeId) :
    verdict (o.group block candidates) = verdict (o.children block) := by
  rw [Outline.group]
  cases o.children block with
  | error e => rfl
  | ok children =>
    simp only
    split <;> rfl

theorem verdict_ungroup (block : NodeId) (candidates : List NodeId) :
    verdict (o.ungroup block candidates) = verdict (o.children block) := by
  rw [ungroup]
  cases o.children block with
  | error e => rfl
  | ok children =>
    simp only
    split
    · rfl
    · split_ifs <;> rfl

end Outline

namespace Represents

variable {t : Tree} {o : Outline}

/-- A call fails exactly if its checks fail, and for the same reason. -/
theorem answer_check (h : Represents t o) (e : Edit) :
    verdict (t.perform e).answer = e.check t := by
  rw [h.answer_perform, verdict_map]
  cases e with
  | add block c =>
    rw [Outline.perform, verdict_map, Outline.verdict_add, Edit.check, h.children_eq]
    cases o.children block <;> rfl
  | remove id =>
    rw [Outline.perform, verdict_map, Edit.check, h.root]
    by_cases hid : id = o.root.id
    · rw [Outline.remove, if_pos hid, if_pos hid]
      rfl
    · rw [Outline.verdict_remove h.nodup hid, if_neg hid, h.entry_eq]
      cases o.node id <;> rfl
  | createNew block path operator? value? =>
    rw [Outline.perform, verdict_map, Edit.check, h.children_eq, h.factory]
    cases hchildren : o.children block with
    | error e =>
      rw [Outline.createNew, hchildren]
      rfl
    | ok children =>
      cases hoperator : operator?.or (o.factory.defaultFor? path) with
      | none =>
        rw [Outline.createNew, hchildren]
        simp only [hoperator]
        rfl
      | some operator =>
        rw [Outline.verdict_createNew hchildren hoperator]
        rfl
  | createFromTemplate block =>
    rw [Outline.perform, verdict_map, Edit.check, h.children_eq, h.firstLeaf?_eq,
      Outline.createFromTemplate]
    cases hchildren : o.children block with
    | error e => rfl
    | ok children =>
      cases hfirst : (o.root.find? block).bind Node.firstLeaf? with
      | none => rfl
      | some first =>
        obtain ⟨template, htemplate⟩ := Outline.content_firstLeaf? h.nodup hfirst
        simp only [htemplate]
        rw [Outline.verdict_createNew hchildren rfl]
        rfl
  | group block candidates =>
    rw [Outline.perform, verdict_map, Outline.verdict_group, Edit.check, h.children_eq]
    cases o.children block <;> rfl
  | ungroup block candidates =>
    rw [Outline.perform, verdict_map, Outline.verdict_ungroup, Edit.check, h.children_eq]
    cases o.children block <;> rfl
  | clear block =>
    rw [Outline.perform, verdict_map, Outline.clear, verdict_map, Edit.check, h.children_eq]
    cases o.children block <;> rfl
  | setProperty id path =>
    rw [Outline.perform, verdict_map, Outline.setProperty, Edit.check, h.content_eq, h.factory]
    cases o.content id with
    | error e => rfl
    | ok content =>
      cases hoffered : o.factory.offerFor path with
      | nil => rfl
      | cons first others =>
        simp only
        cases (first :: others).contains content.operator <;> rfl
  | setOperator id operator =>
    rw [Outline.perform, verdict_map, Outline.setOperator, verdict_map, Edit.check, h.content_eq]
    cases o.content id <;> rfl
  | setValue id value =>
    rw [Outline.perform, verdict_map, Outline.setValue, verdict_map, Edit.check, h.content_eq]
    cases o.content id <;> rfl
  | setRaw id raw =>
    rw [Outline.perform, verdict_map, Outline.setRaw, Edit.check, h.content_eq]
    cases hcontent : o.content id with
    | error e => rfl
    | ok content =>
      simp only [Outline.setValue, hcontent]
      rfl
  | setLogical id logical =>
    rw [Outline.perform, verdict_map, Outline.setLogical, verdict_map, Edit.check, h.entry_eq]
    cases o.node id <;> rfl
  | subscribe id =>
    rw [Outline.perform, verdict_map, Outline.subscribe, verdict_map, Edit.check, h.entry_eq]
    cases o.node id <;> rfl
  | unsubscribe id listener => rfl
  | compile id =>
    rw [Outline.perform, verdict_map, Outline.compile, verdict_map, Edit.check, h.entry_eq]
    cases o.node id <;> rfl

/-! ### Calls without an effect -/

/-- Grouping that gives no block changes nothing. -/
theorem perform_group_none (h : Represents t o) {block : NodeId} {candidates : List NodeId}
    (hanswer : (t.perform (.group block candidates)).answer = .ok (.grouped none)) :
    t.perform (.group block candidates) = ⟨.ok (.grouped none), t, []⟩ := by
  rw [h.answer_perform, Outline.perform] at hanswer
  cases hchildren : o.children block with
  | error e =>
    rw [Outline.group, hchildren] at hanswer
    cases hanswer
  | ok children =>
    have hnames := filter_names candidates children
    generalize hmatched : children.filter (candidates.contains ·.id) = matched at hnames
    rcases matched with _ | ⟨first, _ | ⟨second, others⟩⟩
    · apply Tree.perform_of_call
      apply TreeM.map_ok
      rw [TreeM.group, TreeM.bind_ok (h.ask_children hchildren), hnames]
      rfl
    · apply Tree.perform_of_call
      apply TreeM.map_ok
      rw [TreeM.group, TreeM.bind_ok (h.ask_children hchildren), hnames]
      rfl
    · -- two or more children move into a new block
      simp only [Outline.group, hchildren, hmatched] at hanswer
      cases hanswer

/-- Ungrouping that moves nothing changes nothing. -/
theorem perform_ungroup_false (h : Represents t o) {block : NodeId} {candidates : List NodeId}
    (hanswer : (t.perform (.ungroup block candidates)).answer = .ok (.flag false)) :
    t.perform (.ungroup block candidates) = ⟨.ok (.flag false), t, []⟩ := by
  rw [h.answer_perform, Outline.perform] at hanswer
  cases hchildren : o.children block with
  | error e =>
    rw [Outline.ungroup, hchildren] at hanswer
    cases hanswer
  | ok children =>
    apply Tree.perform_of_call
    apply TreeM.map_ok
    obtain ⟨frames, head, hroot, rfl⟩ := Outline.exists_plug_of_children h.nodup hchildren
    have hask : TreeM.ask (·.entry head.id) t =
        .ok ((Node.block head children).entry (Node.above frames)) t :=
      TreeM.ask_ok (by rw [Tree.entry, ← Node.id_block head children, (h.includes hroot).get?_eq])
    rw [TreeM.ungroup, TreeM.bind_ok (h.ask_children hchildren), TreeM.bind_ok hask,
      filter_names]
    cases frames with
    | nil => rfl
    | cons frame frames =>
      have hparent : o.root.parent? head.id = some frame.head.id :=
        Outline.parent?_plug h.nodup hroot
      by_cases hnone : children.all (!candidates.contains ·.id)
      · rw [Node.all_not_iff_filter_eq_nil] at hnone
        rw [hnone]
        rfl
      · simp only [Outline.ungroup, hchildren, hparent, if_neg hnone] at hanswer
        split at hanswer <;> cases hanswer

end Represents

/-- A listener that is not there is not taken away. -/
theorem Tree.perform_unsubscribe_false {t : Tree} {id : NodeId} {listener : Nat}
    (hanswer : (t.perform (.unsubscribe id listener)).answer = .ok (.flag false)) :
    t.perform (.unsubscribe id listener) = ⟨.ok (.flag false), t, []⟩ := by
  apply perform_of_call
  cases he : t.arena.get? id with
  | none =>
    apply TreeM.map_ok
    rw [TreeM.unsubscribe, TreeM.bind_ok TreeM.get_eq, he]
    rfl
  | some e =>
    let kept := e.listeners.filter (· != listener)
    let after := t.arena.modify id ({ · with listeners := kept })
    have hcall : (Edit.unsubscribe id listener).call t =
        .ok (.flag (kept.length != e.listeners.length)) { t with arena := after } := by
      apply TreeM.map_ok
      rw [TreeM.unsubscribe, TreeM.bind_ok TreeM.get_eq, he]
      rfl
    have hflag : (kept.length != e.listeners.length) = false := by
      simp only [perform, outcome, hcall] at hanswer
      exact EditAnswer.flag.inj (Except.ok.inj hanswer)
    have hkept : kept = e.listeners :=
      List.filter_eq_self.mpr (List.length_filter_eq_length_iff.mp (bne_eq_false_iff_eq.mp hflag))
    have hself : after = t.arena := by
      refine Arena.modify_eq_self he ?_
      rw [hkept]
    rw [hcall, hflag, hself]

/-! ### All calls -/

/-- A call has its whole effect or none: it fails exactly if the checks fail with which it begins,
and then the whole tree is as before and no listener has heard of it. So it is if the answer says
that nothing was done. -/
structure Tree.AllOrNothing (t : Tree) : Prop where
  checked (e : Edit) : verdict (t.perform e).answer = e.check t
  failed {e : Edit} {cause : ConditionError} (h : (t.perform e).answer = .error cause) :
    t.perform e = ⟨.error cause, t, []⟩
  not_grouped {block : NodeId} {candidates : List NodeId}
    (h : (t.perform (.group block candidates)).answer = .ok (.grouped none)) :
    t.perform (.group block candidates) = ⟨.ok (.grouped none), t, []⟩
  not_ungrouped {block : NodeId} {candidates : List NodeId}
    (h : (t.perform (.ungroup block candidates)).answer = .ok (.flag false)) :
    t.perform (.ungroup block candidates) = ⟨.ok (.flag false), t, []⟩
  not_unsubscribed {id : NodeId} {listener : Nat}
    (h : (t.perform (.unsubscribe id listener)).answer = .ok (.flag false)) :
    t.perform (.unsubscribe id listener) = ⟨.ok (.flag false), t, []⟩
  not_offered {id : NodeId} {path : Path} {content : Leaf} (h : t.content id = .ok content)
    (hoffered : t.factory.offerFor path = []) :
    t.perform (.setProperty id path) = ⟨.error (.noOperator path.fullName), t, []⟩

namespace Represents

variable {t : Tree} {o : Outline}

/-- A call that fails leaves the tree as it is. -/
theorem perform_failed (h : Represents t o) {e : Edit} {cause : ConditionError}
    (hanswer : (t.perform e).answer = .error cause) : t.perform e = ⟨.error cause, t, []⟩ := by
  rw [h.answer_perform] at hanswer
  cases hx : o.perform e with
  | error cause' =>
    rw [hx] at hanswer
    cases hanswer
    exact h.perform_error hx
  | ok x =>
    rw [hx] at hanswer
    cases hanswer

theorem perform_not_offered (h : Represents t o) {id : NodeId} {path : Path} {content : Leaf}
    (hcontent : t.content id = .ok content) (hoffered : t.factory.offerFor path = []) :
    t.perform (.setProperty id path) = ⟨.error (.noOperator path.fullName), t, []⟩ := by
  apply h.perform_failed
  have hcheck := h.answer_check (.setProperty id path)
  rw [Edit.check, hcontent, hoffered] at hcheck
  cases hanswer : (t.perform (.setProperty id path)).answer with
  | error cause =>
    rw [hanswer] at hcheck
    cases hcheck
    rfl
  | ok answer =>
    rw [hanswer] at hcheck
    cases hcheck

theorem allOrNothing (h : Represents t o) : t.AllOrNothing where
  checked := h.answer_check
  failed := h.perform_failed
  not_grouped := h.perform_group_none
  not_ungrouped := h.perform_ungroup_false
  not_unsubscribed := Tree.perform_unsubscribe_false
  not_offered := h.perform_not_offered

end Represents

/-- In every tree that comes about by edits, a call has its whole effect or none. -/
theorem Tree.allOrNothing_run (factory : OperatorFactory) (edits : List Edit) :
    ((ofFactory factory).run edits).AllOrNothing :=
  (represents_run factory edits).allOrNothing

end EntityQuery
