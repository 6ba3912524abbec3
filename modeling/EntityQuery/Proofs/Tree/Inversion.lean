import EntityQuery.Proofs.Tree.Surroundings

/-!
# What an edit that succeeds does

An edit that succeeds puts another node in the place of one node of the outline, and mostly ends
with the walk upwards. All that an edit can do to an outline is listed once, with the changed node
in its surroundings, so that what every edit preserves is proved by going through the list.

* `Edit.target`, `EditAnswer.created?` — the names in an edit and in its answer.
* `Edit.change?`, `Edit.notice?` — what an edit announces.
* `Outline.start?` — from where an edit tells listeners.
* `Outline.Step` — the list.
* `Outline.Step.id_root`, `Outline.Step.mem_created` — what every step does to names.
* `Outline.step_perform` — every edit that succeeds is on it.
-/

namespace EntityQuery

/-- The name that an answer gives to a new condition. -/
def EditAnswer.created? : EditAnswer → Option NodeId
  | .created id => some id
  | .grouped id? => id?
  | _ => none

namespace Edit

/-- The name of the condition to which a call is addressed. -/
def target : Edit → NodeId
  | .add block _ => block
  | .remove id => id
  | .createNew block .. => block
  | .createFromTemplate block => block
  | .group block _ => block
  | .ungroup block _ => block
  | .clear block => block
  | .setProperty id _ => id
  | .setOperator id _ => id
  | .setValue id _ => id
  | .setRaw id _ => id
  | .setLogical id _ => id
  | .subscribe id => id
  | .unsubscribe id _ => id
  | .compile id => id

/-- The change that an edit announces if it has an effect. -/
def change? : Edit → Option Change
  | .add .. | .createNew .. | .createFromTemplate .. => some .added
  | .remove .. => some .removed
  | .group .. => some .grouped
  | .ungroup .. => some .ungrouped
  | .clear .. => some .cleared
  | .setProperty .. => some .propertyChanged
  | .setOperator .. => some .operatorChanged
  | .setValue .. | .setRaw .. => some .valueChanged
  | .setLogical .. => some .logicalOperatorChanged
  | .subscribe .. | .unsubscribe .. | .compile .. => none

/-- What an edit announces with its answer: its change, at the new condition if there is one.
Grouping that gives no block and ungrouping that moves nothing have no effect. -/
def notice? (e : Edit) (answer : EditAnswer) : Option Notice :=
  match e.change?, answer with
  | some .grouped, .grouped none | some .ungrouped, .flag false => none
  | change?, answer => change?.map fun change => ⟨answer.created?.getD e.target, change⟩

theorem notice?_of_change? {e : Edit} {answer : EditAnswer} {change : Change}
    (h : e.change? = some change) (hgrouped : change ≠ .grouped)
    (hungrouped : change ≠ .ungrouped) :
    e.notice? answer = some ⟨answer.created?.getD e.target, change⟩ := by
  rw [notice?, h]
  · rfl
  · exact fun heq => absurd (Option.some.inj (h.symm.trans heq)) hgrouped
  · exact fun heq => absurd (Option.some.inj (h.symm.trans heq)) hungrouped

/-- Subscriptions and requests for expressions announce nothing. -/
theorem notice?_of_silent {e : Edit} {answer : EditAnswer} (h : e.change? = none) :
    e.notice? answer = none := by
  rw [notice?, h]
  · rfl
  · exact fun heq => nomatch h.symm.trans heq
  · exact fun heq => nomatch h.symm.trans heq

end Edit

namespace Outline

variable {o p : Outline}

/-- From where an edit tells listeners upwards, with the outline after it. -/
def start? (o p : Outline) (e : Edit) : Option NodeId :=
  match e.change? with
  | some .removed => o.root.parent? e.target
  | some .ungrouped => if e.target ∈ p.root.ids then some e.target else o.root.parent? e.target
  | _ => some e.target

theorem start?_of_change? {e : Edit} {change : Change} (h : e.change? = some change)
    (hremoved : change ≠ .removed) (hungrouped : change ≠ .ungrouped) :
    o.start? p e = some e.target := by
  rw [start?, h]
  cases change <;> first | rfl | exact absurd rfl hremoved | exact absurd rfl hungrouped

/-- A leaf announces the change of its content itself. -/
theorem announces_content {e : Edit} {answer : EditAnswer} {change : Change}
    (hchange : change ∈ [.propertyChanged, .operatorChanged, .valueChanged])
    (hedit : e.change? = some change) (hnew : answer.created? = none) :
    e.notice? answer = some ⟨e.target, change⟩ ∧ o.start? p e = some e.target := by
  have hothers : ∀ c ∈ [Change.propertyChanged, .operatorChanged, .valueChanged],
      c ≠ .removed ∧ c ≠ .grouped ∧ c ≠ .ungrouped := by decide
  obtain ⟨hremoved, hgrouped, hungrouped⟩ := hothers change hchange
  refine ⟨?_, start?_of_change? hedit hremoved hungrouped⟩
  rw [Edit.notice?_of_change? hedit hgrouped hungrouped, hnew]
  rfl

/-! ### All that an edit can do -/

/-- What an edit that succeeds makes of an outline, with the changed node in its surroundings. -/
inductive Step (o : Outline) : Edit → Outcome EditAnswer → Prop
  /-- Nothing is changed. -/
  | idle {e : Edit} {answer : EditAnswer} (h : e.notice? answer = none)
      (hnew : answer.created? = none) : Step o e ⟨answer, o, []⟩
  /-- A detached condition is planted behind the children of a block. -/
  | added {e : Edit} {frames : List NodeFrame} {head : Head} {children : List Node} {c : Condition}
      {n : Node} {slots : Slots} (hroot : o.root = .plug frames (.block head children))
      (hplant : Node.plant o.slots c = (n, slots)) (hchange : e.change? = some .added)
      (htarget : e.target = head.id) :
      Step o e ((o.place frames (.block head (children ++ [n])) slots).changed (.created n.id) n.id
        ⟨n.id, .added⟩)
  /-- A child of a block goes with all below it. -/
  | removed {frame : NodeFrame} {frames : List NodeFrame} {n : Node}
      (hroot : o.root = .plug (frame :: frames) n) :
      Step o (.remove n.id) ((o.place frames (.block frame.head (frame.before ++ frame.after))
        (o.slots.giveBackAll n.ids)).changed (.removed n.toCondition) frame.head.id
        ⟨n.id, .removed⟩)
  /-- Two or more children of a block move into a new block. -/
  | grouped {frames : List NodeFrame} {head : Head} {children : List Node}
      {candidates : List NodeId} {first second : Node} {others : List Node} {id : NodeId}
      {slots : Slots} (hroot : o.root = .plug frames (.block head children))
      (hmatched : children.filter (candidates.contains ·.id) = first :: second :: others)
      (htake : o.slots.take = (id, slots)) :
      Step o (.group head.id candidates) ((o.place frames (.block head
        (children.filter (!candidates.contains ·.id) ++
          [.block ⟨id, first.head.logical, none, []⟩ (first :: second :: others)])) slots).changed
        (.grouped (some id)) id ⟨id, .grouped⟩)
  /-- The children of a block come in its place. -/
  | emptied {frame : NodeFrame} {frames : List NodeFrame} {head : Head} {children : List Node}
      {candidates : List NodeId}
      (hroot : o.root = .plug (frame :: frames) (.block head children)) (hsome : children ≠ [])
      (hall : children.all (candidates.contains ·.id)) :
      Step o (.ungroup head.id candidates) ((o.place frames
        (.block frame.head (frame.before ++ children ++ frame.after))
        (o.slots.giveBack head.id)).changed (.flag true) frame.head.id ⟨head.id, .ungrouped⟩)
  /-- Some children of a block come in front of it. -/
  | kept {frame : NodeFrame} {frames : List NodeFrame} {head : Head}
      {children moved kept : List Node} {candidates : List NodeId}
      (hroot : o.root = .plug (frame :: frames) (.block head children))
      (hmoved : children.filter (candidates.contains ·.id) = moved)
      (hkept : children.filter (!candidates.contains ·.id) = kept) (hsome : moved ≠ [])
      (hrest : kept ≠ []) :
      Step o (.ungroup head.id candidates) ((o.place
        (⟨frame.head, frame.before ++ moved, frame.after⟩ :: frames) (.block head kept)
        o.slots).changed (.flag true) head.id ⟨head.id, .ungrouped⟩)
  /-- The children of a block go with all below them. -/
  | cleared {frames : List NodeFrame} {head : Head} {children : List Node}
      (hroot : o.root = .plug frames (.block head children)) :
      Step o (.clear head.id) ((o.place frames (.block head [])
        (o.slots.giveBackAll (children.flatMap Node.ids))).changed .done head.id
        ⟨head.id, .cleared⟩)
  /-- A leaf gets another content. -/
  | refilled {e : Edit} {answer : EditAnswer} {change : Change} {frames : List NodeFrame}
      {head : Head} {content : Leaf} (after : Leaf)
      (hroot : o.root = .plug frames (.leaf head content))
      (hchange : change ∈ [.propertyChanged, .operatorChanged, .valueChanged])
      (hedit : e.change? = some change) (htarget : e.target = head.id)
      (hnew : answer.created? = none) :
      Step o e ((o.place frames (.leaf head after) o.slots).changed answer head.id
        ⟨head.id, change⟩)
  /-- A node gets another logical operator. -/
  | relabelled {frames : List NodeFrame} {n : Node} (logical : Logical)
      (hroot : o.root = .plug frames n) :
      Step o (.setLogical n.id logical) ((o.place frames (n.withHead ({ · with logical }))
        o.slots).changed .done n.id ⟨n.id, .logicalOperatorChanged⟩)
  /-- A node gets a new listener. -/
  | subscribed {frames : List NodeFrame} {n : Node} (hroot : o.root = .plug frames n) :
      Step o (.subscribe n.id) ⟨.listener o.nextListener,
        { o.place frames (n.withHead fun h => { h with listeners := h.listeners ++ [o.nextListener] })
            o.slots with
          nextListener := o.nextListener + 1 }, []⟩
  /-- A node loses a listener. -/
  | unsubscribed {frames : List NodeFrame} {n : Node} (listener : Nat)
      (hroot : o.root = .plug frames n) :
      Step o (.unsubscribe n.id listener) ⟨.flag (n.head.listeners.contains listener),
        o.place frames
          (n.withHead fun h => { h with listeners := h.listeners.filter (· != listener) }) o.slots,
        []⟩
  /-- A node is compiled. -/
  | compiled {frames : List NodeFrame} {n : Node} (hroot : o.root = .plug frames n) :
      Step o (.compile n.id) ⟨.compiled n.compile.expr? n.compile.built,
        o.place frames n.compile.result o.slots, []⟩

/-- No step gives the root another name. -/
theorem Step.id_root {e : Edit} {x : Outcome EditAnswer} (h : o.Step e x) :
    x.outline.root.id = o.root.id := by
  have hchanged {frames : List NodeFrame} {m n : Node} {slots : Slots} {answer : EditAnswer}
      {start : NodeId} {notice : Notice} (hroot : o.root = .plug frames m) (hid : n.id = m.id) :
      ((o.place frames n slots).changed answer start notice).outline.root.id = o.root.id := by
    rw [changed, Node.id_touch, hroot]
    exact Node.id_plug frames hid
  cases h with
  | idle h hnew => rfl
  | added hroot hplant hchange htarget => exact hchanged hroot rfl
  | @removed frame frames n hroot => exact hchanged (m := frame.attach n) hroot rfl
  | grouped hroot hmatched htake => exact hchanged hroot rfl
  | @emptied frame frames head children candidates hroot hsome hall =>
    exact hchanged (m := frame.attach (.block head children)) hroot rfl
  | @kept frame frames head children moved kept candidates hroot hmoved hkept hsome hrest =>
    let after : NodeFrame := ⟨frame.head, frame.before ++ moved, frame.after⟩
    exact hchanged (m := frame.attach (.block head children)) (n := after.attach (.block head kept))
      hroot rfl
  | cleared hroot => exact hchanged hroot rfl
  | refilled after hroot hchange hedit htarget hnew => exact hchanged hroot rfl
  | @relabelled frames n logical hroot => exact hchanged hroot (by cases n <;> rfl)
  | @subscribed frames n hroot =>
    rw [hroot]
    exact Node.id_plug frames (by cases n <;> rfl)
  | @unsubscribed frames n listener hroot =>
    rw [hroot]
    exact Node.id_plug frames (by cases n <;> rfl)
  | @compiled frames n hroot =>
    rw [hroot]
    exact Node.id_plug frames (congrArg (·.id) (Node.head_compile n))

/-- The name that a step gives to a new node is that of a node after it. -/
theorem Step.mem_created {e : Edit} {x : Outcome EditAnswer} {id : NodeId} (h : o.Step e x)
    (hid : x.answer.created? = some id) : id ∈ x.outline.root.ids := by
  have hchanged {frames : List NodeFrame} {head : Head} {children : List Node} {n : Node}
      {slots : Slots} {answer : EditAnswer} {start : NodeId} {notice : Notice}
      (hn : n ∈ children) : n.id ∈ ((o.place frames (.block head children) slots).changed answer
        start notice).outline.root.ids := by
    rw [changed, Node.ids_touch]
    exact Node.mem_ids_plug frames (Node.id_mem_ids_of_child (n := .block head children) hn)
  cases h with
  | idle h hnew =>
    rw [hnew] at hid
    cases hid
  | added hroot hplant hchange htarget =>
    cases hid
    exact hchanged (List.mem_append_right _ List.mem_cons_self)
  | @grouped frames head children candidates first second others id slots hroot hmatched htake =>
    cases hid
    exact hchanged (n := .block ⟨id, _, _, _⟩ _) (List.mem_append_right _ List.mem_cons_self)
  | refilled after hroot hchange hedit htarget hnew =>
    have hnone := hnew.symm.trans hid
    cases hnone
  | _ => cases hid

theorem ok_of_map {x : Except ConditionError (Outcome α)} {f : α → β}
    {y : Outcome β} (h : x.map (·.map f) = .ok y) :
    ∃ z, x = .ok z ∧ y = z.map f := by
  cases x with
  | error cause => cases h
  | ok z => exact ⟨z, rfl, (Except.ok.inj h).symm⟩

section Perform

variable (hnodup : o.root.ids.Nodup) {x : Outcome EditAnswer}

include hnodup

/-- The step of every edit that appends a planted condition. -/
theorem step_add {e : Edit} {c : Condition} {y : Outcome NodeId} (hy : o.add e.target c = .ok y)
    (hchange : e.change? = some .added) : o.Step e (y.map .created) := by
  cases hchildren : o.children e.target with
  | error cause =>
    rw [add, hchildren] at hy
    cases hy
  | ok children =>
    obtain ⟨frames, head, hroot, hid⟩ := exists_plug_of_children hnodup hchildren
    rw [← hid, add_plug hnodup hroot rfl] at hy
    cases hy
    exact .added hroot rfl hchange hid.symm

theorem step_createNew {e : Edit} {path : Path} {operator? : Option Operator}
    {value? : Option Value} {y : Outcome NodeId}
    (hy : o.createNew e.target path operator? value? = .ok y) (hchange : e.change? = some .added) :
    o.Step e (y.map .created) := by
  rw [createNew] at hy
  split at hy
  · cases hy
  · split at hy
    · cases hy
    · exact step_add hnodup hy hchange

theorem step_createFromTemplate {block : NodeId} {y : Outcome NodeId}
    (hy : o.createFromTemplate block = .ok y) :
    o.Step (.createFromTemplate block) (y.map .created) := by
  rw [createFromTemplate] at hy
  split at hy
  · cases hy
  · split at hy
    · cases hy
    · split at hy
      · cases hy
      · exact step_createNew (e := .createFromTemplate block) hnodup hy rfl

theorem step_remove {id : NodeId} {y : Outcome Condition} (hy : o.remove id = .ok y) :
    o.Step (.remove id) (y.map .removed) := by
  have hid := hy
  rw [remove] at hid
  split at hid
  · cases hid
  next hne =>
    cases hn : o.node id with
    | error cause =>
      rw [hn] at hid
      cases hid
    | ok n =>
      obtain ⟨frames, hroot, rfl⟩ := exists_plug_of_node hnodup hn
      cases frames with
      | nil => exact absurd (congrArg Node.id hroot).symm hne
      | cons frame frames =>
        rw [remove_plug hnodup hroot] at hy
        cases hy
        exact .removed hroot

theorem step_group {block : NodeId} {candidates : List NodeId} {y : Outcome (Option NodeId)}
    (hy : o.group block candidates = .ok y) :
    o.Step (.group block candidates) (y.map .grouped) := by
  cases hchildren : o.children block with
  | error cause =>
    rw [Outline.group, hchildren] at hy
    cases hy
  | ok children =>
    obtain ⟨frames, head, hroot, rfl⟩ := exists_plug_of_children hnodup hchildren
    rcases hmatched : children.filter (candidates.contains ·.id) with
      _ | ⟨first, _ | ⟨second, others⟩⟩
    · rw [Outline.group, hchildren] at hy
      simp only [hmatched] at hy
      cases hy
      exact .idle rfl rfl
    · rw [Outline.group, hchildren] at hy
      simp only [hmatched] at hy
      cases hy
      exact .idle rfl rfl
    · -- two or more children move into a new block
      rw [group_plug hnodup hroot hmatched rfl] at hy
      cases hy
      exact .grouped hroot hmatched rfl

theorem step_ungroup {block : NodeId} {candidates : List NodeId} {y : Outcome Bool}
    (hy : o.ungroup block candidates = .ok y) :
    o.Step (.ungroup block candidates) (y.map .flag) := by
  cases hchildren : o.children block with
  | error cause =>
    rw [ungroup, hchildren] at hy
    cases hy
  | ok children =>
    obtain ⟨frames, head, hroot, rfl⟩ := exists_plug_of_children hnodup hchildren
    have hparent : o.root.parent? head.id = frames.head?.map (·.head.id) :=
      parent?_plug hnodup hroot
    cases frames with
    | nil =>
      simp only [ungroup, hchildren, hparent, List.head?_nil, Option.map_none] at hy
      cases hy
      exact .idle rfl rfl
    | cons frame frames =>
      by_cases hnone : children.all (!candidates.contains ·.id)
      · simp only [ungroup, hchildren, hparent, List.head?_cons, Option.map_some,
          if_pos hnone] at hy
        cases hy
        exact .idle rfl rfl
      · rw [Node.all_not_iff_filter_eq_nil] at hnone
        by_cases hall : children.all (candidates.contains ·.id)
        · have hsome : children ≠ [] := by
            rintro rfl
            exact hnone rfl
          rw [ungroup_plug_emptied hnodup hroot hsome hall] at hy
          cases hy
          exact .emptied hroot hsome hall
        · rw [Node.all_iff_filter_eq_nil] at hall
          rw [ungroup_plug_kept hnodup hroot rfl rfl hnone hall] at hy
          cases hy
          exact .kept hroot rfl rfl hnone hall

theorem step_clear {block : NodeId} {y : Outcome Unit} (hy : o.clear block = .ok y) :
    o.Step (.clear block) (y.map fun _ => .done) := by
  cases hchildren : o.children block with
  | error cause =>
    rw [clear, hchildren] at hy
    cases hy
  | ok children =>
    obtain ⟨frames, head, hroot, rfl⟩ := exists_plug_of_children hnodup hchildren
    rw [clear_plug hnodup hroot] at hy
    cases hy
    exact .cleared hroot

/-- The step of every edit that gives a leaf another content. -/
theorem step_setContent {e : Edit} {answer : EditAnswer} {change : Change} {content after : Leaf}
    (hcontent : o.content e.target = .ok content)
    (hchange : change ∈ [.propertyChanged, .operatorChanged, .valueChanged])
    (hedit : e.change? = some change) (hnew : answer.created? = none) :
    o.Step e ((o.setContent e.target change after).map fun _ => answer) := by
  obtain ⟨frames, head, hroot, hid⟩ := exists_plug_of_content hnodup hcontent
  rw [← hid, setContent_plug hnodup hroot]
  exact .refilled after hroot hchange hedit hid.symm hnew

theorem step_setProperty {id : NodeId} {path : Path} {y : Outcome Unit}
    (hy : o.setProperty id path = .ok y) :
    o.Step (.setProperty id path) (y.map fun _ => .done) := by
  rw [setProperty] at hy
  split at hy
  · cases hy
  next content hcontent =>
    simp only at hy
    split at hy
    · cases hy
    · cases hy
      exact step_setContent (e := .setProperty id path) hnodup hcontent (by decide) rfl rfl

theorem step_setOperator {id : NodeId} {operator : Operator} {y : Outcome Unit}
    (hy : o.setOperator id operator = .ok y) :
    o.Step (.setOperator id operator) (y.map fun _ => .done) := by
  cases hcontent : o.content id with
  | error cause =>
    rw [setOperator, hcontent] at hy
    cases hy
  | ok content =>
    rw [setOperator, hcontent] at hy
    cases hy
    exact step_setContent (e := .setOperator id operator) hnodup hcontent (by decide) rfl rfl

/-- The step of every edit that gives a leaf another value. -/
theorem step_setValue {e : Edit} {answer : EditAnswer} {value : Value} {y : Outcome Unit}
    (hy : o.setValue e.target value = .ok y) (hedit : e.change? = some .valueChanged)
    (hnew : answer.created? = none) : o.Step e (y.map fun _ => answer) := by
  cases hcontent : o.content e.target with
  | error cause =>
    rw [setValue, hcontent] at hy
    cases hy
  | ok content =>
    rw [setValue, hcontent] at hy
    cases hy
    exact step_setContent hnodup hcontent (by decide) hedit hnew

theorem step_setRaw {id : NodeId} {raw : String} {y : Outcome Bool} (hy : o.setRaw id raw = .ok y) :
    o.Step (.setRaw id raw) (y.map .flag) := by
  rw [setRaw] at hy
  split at hy
  · cases hy
  · obtain ⟨z, hz, rfl⟩ := ok_of_map hy
    exact step_setValue (e := .setRaw id raw) hnodup hz rfl rfl

theorem step_setLogical {id : NodeId} {logical : Logical} {y : Outcome Unit}
    (hy : o.setLogical id logical = .ok y) :
    o.Step (.setLogical id logical) (y.map fun _ => .done) := by
  cases hn : o.node id with
  | error cause =>
    rw [setLogical, hn] at hy
    cases hy
  | ok n =>
    obtain ⟨frames, hroot, rfl⟩ := exists_plug_of_node hnodup hn
    have hmodify := modify_plug hnodup hroot o.slots (Node.withHead ({ · with logical }))
    rw [setLogical, hn] at hy
    cases hy
    rw [show o.modify n.id _ = _ from hmodify]
    exact .relabelled logical hroot

theorem step_subscribe {id : NodeId} {y : Outcome Nat} (hy : o.subscribe id = .ok y) :
    o.Step (.subscribe id) (y.map .listener) := by
  cases hn : o.node id with
  | error cause =>
    rw [subscribe, hn] at hy
    cases hy
  | ok n =>
    obtain ⟨frames, hroot, rfl⟩ := exists_plug_of_node hnodup hn
    have hmodify := modify_plug hnodup hroot o.slots
      (Node.withHead fun h => { h with listeners := h.listeners ++ [o.nextListener] })
    rw [subscribe, hn] at hy
    cases hy
    simp only [show o.modify n.id _ = _ from hmodify]
    exact .subscribed hroot

theorem step_unsubscribe (id : NodeId) (listener : Nat) :
    o.Step (.unsubscribe id listener) ((o.unsubscribe id listener).map .flag) := by
  cases hn : o.root.find? id with
  | none =>
    rw [unsubscribe, modify]
    simp only [Node.update_of_not_mem (Node.find?_eq_none.mp hn)]
    exact .idle rfl rfl
  | some n =>
    obtain ⟨frames, hroot, rfl⟩ := Node.exists_plug_of_find? hnodup hn
    have hmodify := modify_plug hnodup hroot o.slots
      (Node.withHead fun h => { h with listeners := h.listeners.filter (· != listener) })
    rw [unsubscribe, hn]
    simp only [show o.modify n.id _ = _ from hmodify]
    exact .unsubscribed listener hroot

theorem step_compile {id : NodeId} {c : Compiled Outline} (hc : o.compile id = .ok c) :
    o.Step (.compile id) ⟨.compiled c.expr? c.built, c.result, []⟩ := by
  cases hn : o.node id with
  | error cause =>
    rw [compile, hn] at hc
    cases hc
  | ok n =>
    obtain ⟨frames, hroot, rfl⟩ := exists_plug_of_node hnodup hn
    have hmodify := modify_plug hnodup hroot o.slots fun _ => n.compile.result
    rw [compile, hn] at hc
    cases hc
    simp only [show o.root.update n.id _ = _ from congrArg Outline.root hmodify]
    exact .compiled hroot

/-- Every edit that succeeds does a step. -/
theorem step_perform {e : Edit} (hx : o.perform e = .ok x) : o.Step e x := by
  cases e with
  | unsubscribe id listener =>
    cases hx
    exact step_unsubscribe hnodup id listener
  | compile id =>
    cases hc : o.compile id with
    | error cause =>
      rw [perform, hc] at hx
      cases hx
    | ok c =>
      rw [perform, hc] at hx
      cases hx
      exact step_compile hnodup hc
  | _ =>
    obtain ⟨y, hy, rfl⟩ := ok_of_map hx
    first
    | exact step_add (e := .add _ _) hnodup hy rfl
    | exact step_remove hnodup hy
    | exact step_createNew (e := .createNew _ _ _ _) hnodup hy rfl
    | exact step_createFromTemplate hnodup hy
    | exact step_group hnodup hy
    | exact step_ungroup hnodup hy
    | exact step_clear hnodup hy
    | exact step_setProperty hnodup hy
    | exact step_setOperator hnodup hy
    | exact step_setValue (e := .setValue _ _) hnodup hy rfl rfl
    | exact step_setRaw hnodup hy
    | exact step_setLogical hnodup hy
    | exact step_subscribe hnodup hy

end Perform

end Outline

end EntityQuery
