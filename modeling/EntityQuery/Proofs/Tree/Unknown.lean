import EntityQuery.Proofs.Tree.Generations

/-!
# Unknown names

A tree rejects every name that is not in use: questions and edits about it fail, and as a candidate
it makes no difference. A name that has left is never in use again, as long as the generation of its
slot has not come round.

* `Tree.Rejects` — what a tree answers about a name that is not in use; `Represents.rejects`.
* `Represents.contains_created` — a new name is in use after the edit that gives it.
* `Represents.not_contains_run` — a name that has left is not in use after further edits.
* `Tree.rejects_run` — a name that has left is rejected from then on, and never given again.
-/

namespace EntityQuery

/-- What a tree answers about a name that is not in use. Calls addressed to it fail and change
nothing, only that no listener is there is an answer. As a candidate it makes no difference. -/
structure Tree.Rejects (t : Tree) (id : NodeId) : Prop where
  contains : t.contains id = false
  entry : t.entry id = .error (.unknownCondition id)
  parent : t.parent id = .error (.unknownCondition id)
  children : t.children id = .error (.unknownCondition id)
  content : t.content id = .error (.unknownCondition id)
  snapshot : t.snapshot id = .error (.unknownCondition id)
  describe (labels : Labels) : t.describe id labels = .error (.unknownCondition id)
  compile : t.compile id = .error (.unknownCondition id)
  firstLeaf? : t.firstLeaf? id = none
  perform {e : Edit} (htarget : e.target = id)
    (hlistener : ∀ listener, e ≠ .unsubscribe id listener) :
    t.perform e = ⟨.error (.unknownCondition id), t, []⟩
  unsubscribe (listener : Nat) :
    t.perform (.unsubscribe id listener) = ⟨.ok (.flag false), t, []⟩
  group (block : NodeId) (candidates : List NodeId) :
    t.perform (.group block candidates) = t.perform (.group block (candidates.filter (· != id)))
  ungroup (block : NodeId) (candidates : List NodeId) :
    t.perform (.ungroup block candidates) =
      t.perform (.ungroup block (candidates.filter (· != id)))

namespace TreeM

variable {α β : Type} {t : Tree}

/-- Calls that do the same to a tree have the same answers in other words. -/
theorem map_congr {call other : TreeM α} {f : α → β} (h : call t = other t) :
    (f <$> call) t = (f <$> other) t := by
  show EStateM.map f call t = EStateM.map f other t
  rw [EStateM.map, EStateM.map, h]

/-- Calls that ask the same question need only do the same after its answer. -/
theorem ask_congr {question : Tree → Except ConditionError α} {next other : α → TreeM β}
    (h : ∀ answer, question t = .ok answer → next answer t = other answer t) :
    (ask question >>= next) t = (ask question >>= other) t := by
  cases hq : question t with
  | error cause => rw [bind_error (ask_error hq), bind_error (ask_error hq)]
  | ok answer =>
    rw [bind_ok (ask_ok hq), bind_ok (ask_ok hq)]
    exact h answer hq

end TreeM

theorem Tree.perform_congr {t : Tree} {e e' : Edit} (h : e.call t = e'.call t) :
    t.perform e = t.perform e' := by
  rw [perform, perform, outcome, outcome, h]

namespace Represents

variable {t : Tree} {o : Outline} {id : NodeId}

/-! ### What is answered about a name that is not in use -/

theorem perform_error (h : Represents t o) {e : Edit} {cause : ConditionError}
    (he : o.perform e = .error cause) : t.perform e = ⟨.error cause, t, []⟩ := by
  have hcall := h.call e
  rw [he] at hcall
  have hcall : e.call t = .error cause t := hcall
  simp only [Tree.perform, Tree.outcome, hcall, List.drop_length]

/-- An edit of the outline fails if it is addressed to a name that is not in use. -/
theorem perform_unknown (h : Represents t o) (hnode : o.node id = .error (.unknownCondition id))
    {e : Edit} (htarget : e.target = id) (hlistener : ∀ listener, e ≠ .unsubscribe id listener) :
    o.perform e = .error (.unknownCondition id) := by
  have hchildren : o.children id = .error (.unknownCondition id) := by rw [Outline.children, hnode]
  have hcontent : o.content id = .error (.unknownCondition id) := by rw [Outline.content, hnode]
  cases e with
  | add block c => rw [Outline.perform, Outline.add, show block = id from htarget, hchildren]; rfl
  | remove top =>
    have hroot : id ≠ o.root.id := by
      rintro rfl
      cases hnode.symm.trans (h.root ▸ h.node_root)
    rw [Outline.perform, Outline.remove, show top = id from htarget, if_neg hroot, hnode]
    rfl
  | createNew block path operator? value? =>
    rw [Outline.perform, Outline.createNew, show block = id from htarget, hchildren]
    rfl
  | createFromTemplate block =>
    rw [Outline.perform, Outline.createFromTemplate, show block = id from htarget, hchildren]
    rfl
  | group block candidates =>
    rw [Outline.perform, Outline.group, show block = id from htarget, hchildren]
    rfl
  | ungroup block candidates =>
    rw [Outline.perform, Outline.ungroup, show block = id from htarget, hchildren]
    rfl
  | clear block =>
    rw [Outline.perform, Outline.clear, show block = id from htarget, hchildren]
    rfl
  | setProperty leaf path =>
    rw [Outline.perform, Outline.setProperty, show leaf = id from htarget, hcontent]
    rfl
  | setOperator leaf operator =>
    rw [Outline.perform, Outline.setOperator, show leaf = id from htarget, hcontent]
    rfl
  | setValue leaf value =>
    rw [Outline.perform, Outline.setValue, show leaf = id from htarget, hcontent]
    rfl
  | setRaw leaf raw =>
    rw [Outline.perform, Outline.setRaw, show leaf = id from htarget, hcontent]
    rfl
  | setLogical child logical =>
    rw [Outline.perform, Outline.setLogical, show child = id from htarget, hnode]
    rfl
  | subscribe child =>
    rw [Outline.perform, Outline.subscribe, show child = id from htarget, hnode]
    rfl
  | unsubscribe child listener =>
    exact absurd (congrArg (Edit.unsubscribe · listener) htarget) (hlistener listener)
  | compile child =>
    rw [Outline.perform, Outline.compile, show child = id from htarget, hnode]
    rfl

/-- The children of a block are in use. -/
theorem not_mem_children (h : Represents t o) (hid : t.contains id = false) {block : NodeId}
    {names : List NodeId} (hnames : t.children block = .ok names) : id ∉ names := by
  intro hmem
  rw [h.children_eq] at hnames
  cases hchildren : o.children block with
  | error cause =>
    rw [hchildren] at hnames
    cases hnames
  | ok children =>
    rw [hchildren] at hnames
    cases hnames
    obtain ⟨frames, head, hroot, -⟩ := Outline.exists_plug_of_children h.nodup hchildren
    obtain ⟨c, hc, rfl⟩ := List.mem_map.mp hmem
    have hused : c.id ∈ o.root.ids := by
      rw [hroot]
      exact Node.mem_ids_plug frames (Node.id_mem_ids_of_child hc)
    rw [← h.contains_iff_mem, hid] at hused
    cases hused

/-- The candidates among the children of a block are in use. -/
theorem filter_candidates (h : Represents t o) (hid : t.contains id = false) {block : NodeId}
    {names : List NodeId} (hnames : t.children block = .ok names) (candidates : List NodeId) :
    names.filter (candidates.contains ·) =
      names.filter ((candidates.filter (· != id)).contains ·) := by
  refine List.filter_congr fun name hname => ?_
  have hne : name ≠ id := fun heq => h.not_mem_children hid hnames (heq ▸ hname)
  rw [Bool.eq_iff_iff, List.contains_iff_mem, List.contains_iff_mem, List.mem_filter]
  simp [hne]

theorem group_candidates (h : Represents t o) (hid : t.contains id = false) (block : NodeId)
    (candidates : List NodeId) :
    TreeM.group block candidates t = TreeM.group block (candidates.filter (· != id)) t := by
  refine TreeM.ask_congr fun names hnames => ?_
  rw [h.filter_candidates hid hnames]

theorem ungroup_candidates (h : Represents t o) (hid : t.contains id = false) (block : NodeId)
    (candidates : List NodeId) :
    TreeM.ungroup block candidates t = TreeM.ungroup block (candidates.filter (· != id)) t := by
  refine TreeM.ask_congr fun names hnames => ?_
  rw [h.filter_candidates hid hnames]

/-- A name that is not in use is rejected. -/
theorem rejects (h : Represents t o) (hid : t.contains id = false) : t.Rejects id := by
  have hnone : t.arena.get? id = none := by
    rw [← Option.not_isSome_iff_eq_none, Bool.not_eq_true]
    exact hid
  have hentry : t.entry id = .error (.unknownCondition id) := by rw [Tree.entry, hnone]
  obtain ⟨hfind, hnode⟩ : o.root.find? id = none ∧ o.node id = .error (.unknownCondition id) := by
    obtain ⟨frames, n, -, -, -, hn⟩ | ⟨hfind, hnode, -⟩ := h.known_or_unknown id
    · rw [h.contains_eq, hn] at hid
      cases hid
    · exact ⟨hfind, hnode⟩
  constructor
  case contains => exact hid
  case entry => exact hentry
  case parent => rw [Tree.parent, hentry]; rfl
  case children => rw [Tree.children, hentry]
  case content => rw [Tree.content, hentry]
  case snapshot => rw [h.snapshot_eq, hnode]; rfl
  case describe => intro labels; rw [h.describe_eq, hnode]; rfl
  case compile =>
    have hcompile := h.compile_spec id
    rw [Outline.compile, hnode] at hcompile
    exact hcompile
  case firstLeaf? => rw [h.firstLeaf?_eq, hfind]; rfl
  case perform =>
    intro e htarget hlistener
    exact h.perform_error (h.perform_unknown hnode htarget hlistener)
  case unsubscribe =>
    intro listener
    have hcall : (Edit.unsubscribe id listener).call t = .ok (.flag false) t := by
      show EStateM.map EditAnswer.flag (TreeM.unsubscribe id listener) t = _
      rw [EStateM.map, TreeM.unsubscribe, TreeM.bind_ok TreeM.get_eq, hnone]
      rfl
    simp only [Tree.perform, Tree.outcome, hcall, List.drop_length]
  case group =>
    intro block candidates
    exact Tree.perform_congr (TreeM.map_congr (h.group_candidates hid block candidates))
  case ungroup =>
    intro block candidates
    exact Tree.perform_congr (TreeM.map_congr (h.ungroup_candidates hid block candidates))

/-! ### New names -/

/-- A new name is in use after the edit that gives it. -/
theorem contains_created (h : Represents t o) {e : Edit} {answer : EditAnswer}
    (hanswer : (t.perform e).answer = .ok answer) (hid : answer.created? = some id) :
    (t.after e).contains id := by
  rw [(h.after e).contains_iff_mem, Outline.after]
  rw [h.answer_perform] at hanswer
  cases hx : o.perform e with
  | error cause =>
    rw [hx] at hanswer
    cases hanswer
  | ok x =>
    rw [hx] at hanswer
    cases hanswer
    exact (Outline.step_perform h.nodup hx).mem_created hid

/-! ### After a name has left -/

/-- The slot of a name that leaves is emptied. -/
theorem emptied_pos (h : Represents t o) {e : Edit} (hleaves : t.Leaves id e)
    (edits : List Edit) : 0 < t.emptied id.index (e :: edits) := by
  obtain ⟨gone, -, hgone, hloses⟩ := h.frees e
  have hindex : id.index ∈ gone.map (·.index) := List.mem_map_of_mem ((hgone id).mpr hleaves)
  obtain ⟨hbefore, hafter⟩ := hloses.held hindex
  rw [← h.holds_iff] at hbefore
  rw [← (h.after e).holds_iff, Bool.not_eq_true] at hafter
  rw [Tree.emptied, hbefore, hafter]
  exact Nat.lt_of_lt_of_le Nat.one_pos (Nat.le_add_right _ _)

/-- A name that has left is not in use as long as its slot is not emptied too often: the generation
of the slot has gone on from that of the name, and has not come round to it. -/
theorem not_contains_run (h : Represents t o) {e : Edit} (hleaves : t.Leaves id e)
    (edits : List Edit) (hfew : t.emptied id.index (e :: edits) < 2 ^ 32) :
    (t.run (e :: edits)).contains id = false := by
  rw [← Bool.not_eq_true, (h.run (e :: edits)).contains_iff]
  rintro ⟨-, hafter⟩
  obtain ⟨-, hbefore⟩ := (h.contains_iff id).mp ((h.leaves_iff e id).mp hleaves).1
  rw [h.generation_run, hbefore] at hafter
  have hnat := congrArg UInt32.toNat hafter
  rw [UInt32.toNat_add, UInt32.toNat_ofNat'] at hnat
  have hgeneration := id.generation.toNat_lt
  have hemptied := h.emptied_pos hleaves edits
  omega

end Represents

namespace Tree

/-- After a name has left a tree that came about by edits, it is rejected after every number of
further edits, and none of them gives it to a new condition. Its slot can be used again, but must be
emptied fewer than `2 ^ 32` times from then on. -/
theorem rejects_run (factory : OperatorFactory) (before later : List Edit) {e : Edit} {id : NodeId}
    (hleaves : ((ofFactory factory).run before).Leaves id e)
    (hfew : ((ofFactory factory).run before).emptied id.index (e :: later) < 2 ^ 32) :
    (∀ done, done <+: later → ((ofFactory factory).run (before ++ e :: done)).Rejects id) ∧
      ∀ done f answer, done ++ [f] <+: later →
        (((ofFactory factory).run (before ++ e :: done)).perform f).answer = .ok answer →
        answer.created? ≠ some id := by
  have hstart := represents_run factory before
  have hgone : ∀ done, done <+: later →
      ((ofFactory factory).run (before ++ e :: done)).contains id = false := by
    rintro done ⟨rest, rfl⟩
    rw [← List.cons_append, emptied_append] at hfew
    rw [run_append]
    exact hstart.not_contains_run hleaves done (Nat.lt_of_le_of_lt (Nat.le_add_right _ _) hfew)
  constructor
  · intro done hdone
    exact (represents_run factory (before ++ e :: done)).rejects (hgone done hdone)
  · intro done f answer hdone hanswer hid
    have hcreated := (represents_run factory (before ++ e :: done)).contains_created hanswer hid
    have hafter := hgone (done ++ [f]) hdone
    rw [← List.cons_append, ← List.append_assoc, run_append] at hafter
    exact Bool.false_ne_true (hafter.symm.trans hcreated)

/-- A block goes with the one above it, and its slot is used again in the next generation. -/
theorem rejects_run_reused :
    let t := ofFactory .standard
    let inner : Condition := .block .and []
    let before := [Edit.add t.root (.block .and [inner])]
    let later := [Edit.add t.root inner, Edit.add t.root inner]
    let id : NodeId := ⟨2, 0⟩
    (t.run before).Leaves id (.remove ⟨1, 0⟩) ∧
      (t.run before).emptied id.index (.remove ⟨1, 0⟩ :: later) < 2 ^ 32 ∧
      (t.run (before ++ .remove ⟨1, 0⟩ :: later)).contains ⟨2, 1⟩ ∧
      (t.run (before ++ .remove ⟨1, 0⟩ :: later)).Rejects id := by
  intro t inner before later id
  have hleaves : (t.run before).Leaves id (.remove ⟨1, 0⟩) := by
    refine .removed (c := .block .and [inner]) rfl (.single ?_)
    exact ⟨_, rfl, List.mem_cons_self⟩
  have hfew : (t.run before).emptied id.index (.remove ⟨1, 0⟩ :: later) < 2 ^ 32 := by decide
  refine ⟨hleaves, hfew, by decide, ?_⟩
  exact (rejects_run .standard before later hleaves hfew).1 later (List.prefix_refl _)

end Tree

end EntityQuery
