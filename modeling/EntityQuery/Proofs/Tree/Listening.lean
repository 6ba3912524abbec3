import EntityQuery.Proofs.Tree.Delivery

/-!
# What listeners hear

Every listener hears of every change at its condition or below it, once and in order, and of
nothing else. It goes on hearing for as long as its condition is in use, wherever the condition is
moved, and hears nothing any more once the condition has left.

* `Tree.eventsOf`, `Tree.noticesAt`, `Tree.notices` — what is heard, and what is announced, in the
  course of edits.
* `Represents.filter_events`, `Represents.filter_eventsOf` — what one listener hears of an edit, and
  of a list of them.
* `Tree.Announces` — how a tree tells its listeners; `Tree.announces_run` for every tree that comes
  about by edits.
-/

namespace EntityQuery

namespace Tree

/-- What all listeners hear in the course of edits. -/
def eventsOf (t : Tree) : List Edit → List Event
  | [] => []
  | e :: edits => (t.perform e).events ++ (t.after e).eventsOf edits

/-- What is announced in the course of edits. -/
def notices (t : Tree) : List Edit → List Notice
  | [] => []
  | e :: edits => (t.notice? e).toList ++ (t.after e).notices edits

/-- What is announced to a condition in the course of edits. -/
def noticesAt (t : Tree) (id : NodeId) : List Edit → List Notice
  | [] => []
  | e :: edits =>
    (if id ∈ t.told e then (t.notice? e).toList else []) ++ (t.after e).noticesAt id edits

/-- How a tree tells its listeners of changes. -/
structure Announces (t : Tree) : Prop where
  /-- An edit that announces a change tells the listeners of one name after the other; every other
  edit tells nobody. -/
  events (e : Edit) : (t.perform e).events = (t.notice? e).elim [] fun notice =>
    (t.told e).flatMap fun id => notice.events ((t.after e).listeners id)
  /-- These names lead from the start to the root, each to the block above it. -/
  told {e : Edit} {notice : Notice} (h : t.notice? e = some notice) :
    ∃ start, t.start? e = some start ∧ (t.told e).head? = some start ∧
      (t.told e).getLast? = some t.root ∧
      (t.told e).IsChain fun id block => (t.after e).parent id = .ok (some block)
  /-- No listener hears twice of an edit. -/
  once (e : Edit) : ((t.perform e).events.map (·.listener)).Nodup
  /-- A new listener comes behind those that a condition has. -/
  subscribed {id : NodeId} {listener : Nat}
    (h : (t.perform (.subscribe id)).answer = .ok (.listener listener)) :
    (t.after (.subscribe id)).listeners id = t.listeners id ++ [listener]
  /-- So the listeners of a condition are in the order in which they came. -/
  ordered (id : NodeId) : (t.listeners id).Pairwise (· < ·)
  /-- A condition that is in use after a change has the listeners that it had before. -/
  kept {e : Edit} {id : NodeId} (h : (t.notice? e).isSome) (hid : (t.after e).contains id) :
    (t.after e).listeners id = t.listeners id
  /-- Nothing else is heard. -/
  heard (edits : List Edit) : (t.run edits).heard = t.heard ++ t.eventsOf edits
  /-- A listener hears what is announced to its condition, as long as that is in use and the
  listener is not taken away. -/
  member {id : NodeId} {listener : Nat} (h : listener ∈ t.listeners id) (edits : List Edit)
    (hid : ∀ done, done <+: edits → (t.run done).contains id)
    (hedits : .unsubscribe id listener ∉ edits) :
    (t.eventsOf edits).filter (·.listener == listener) =
      (t.noticesAt id edits).map fun notice => { notice with listener }
  /-- A listener of the root hears of every change. -/
  root {listener : Nat} (h : listener ∈ t.listeners t.root) (edits : List Edit)
    (hedits : .unsubscribe t.root listener ∉ edits) :
    (t.eventsOf edits).filter (·.listener == listener) =
      (t.notices edits).map fun notice => { notice with listener }
  /-- A listener of a condition that has left hears nothing any more. -/
  gone {e : Edit} {id : NodeId} {listener : Nat} (hleaves : t.Leaves id e)
    (h : listener ∈ t.listeners id) (later : List Edit) :
    ∀ event ∈ t.eventsOf (e :: later), event.listener ≠ listener

end Tree

/-! ### Listeners on the way to the root -/

namespace Node

theorem frames_le_surroundings (frames : List NodeFrame) :
    ((frames.map fun frame => (frame.head.id, frame.head.listeners) : List _) : Audience) ≤
      surroundings frames := by
  induction frames with
  | nil => exact le_refl _
  | cons frame frames ih =>
    rw [surroundings, List.map_cons, List.map_cons, List.sum_cons, ← Multiset.cons_coe,
      Multiset.cons_add]
    exact Multiset.cons_le_cons _ (ih.trans (Multiset.le_add_left _ _))

/-- The listeners of a node and of the blocks around it are in the audience. -/
theorem heads_le_hears (frames : List NodeFrame) (n : Node) :
    (((heads frames n).map fun head => (head.id, head.listeners) : List _) : Audience) ≤
      (plug frames n).hears := by
  have hframes := frames_le_surroundings frames
  rw [hears_plug, hears_eq_cons, Multiset.cons_add, heads, List.map_cons, List.map_map,
    ← Multiset.cons_coe]
  exact Multiset.cons_le_cons _ (hframes.trans (Multiset.le_add_left _ _))

theorem mem_hears_of_heads {frames : List NodeFrame} {n : Node} {head : Head}
    (hhead : head ∈ heads frames n) : (head.id, head.listeners) ∈ (plug frames n).hears :=
  Multiset.mem_of_le (heads_le_hears frames n) (List.mem_map.mpr ⟨head, hhead, rfl⟩)

/-- The listeners on the way to the root are different. -/
theorem nodup_listeners {frames : List NodeFrame} {n : Node} {next : Nat}
    (hd : Audience.Distinct (plug frames n).hears next) :
    ((heads frames n).flatMap (·.listeners)).Nodup := by
  have hle := Audience.numbers_le (heads_le_hears frames n)
  rw [Audience.numbers, Multiset.coe_bind, List.flatMap_map] at hle
  exact Multiset.coe_nodup.mp (Multiset.nodup_of_le hle hd.nodup)

end Node

/-- What some listeners hear of a change is what one hears of it if it is among them. -/
theorem filter_flatMap_events {heads : List Head} (hnodup : (heads.flatMap (·.listeners)).Nodup)
    (notice : Notice) (listener : Nat) :
    (heads.flatMap fun head => notice.events head.listeners).filter (·.listener == listener) =
      if listener ∈ heads.flatMap (·.listeners) then [{ notice with listener }] else [] := by
  have hmap : (heads.flatMap fun head => notice.events head.listeners) =
      (heads.flatMap (·.listeners)).map fun listener => { notice with listener } := by
    rw [List.map_flatMap]
    rfl
  rw [hmap, List.filter_map]
  show ((heads.flatMap (·.listeners)).filter (· == listener)).map _ = _
  rw [List.filter_beq, hnodup.count]
  split <;> rfl

namespace Represents

open Audience

variable {t : Tree} {o : Outline} {e : Edit} {id : NodeId} {listener : Nat}

/-- The audience of the outline has the names in use with their listeners. -/
theorem mem_hears (h : Represents t o) {listeners : List Nat} :
    (id, listeners) ∈ o.root.hears ↔ t.contains id ∧ t.listeners id = listeners := by
  rw [Node.mem_hears]
  constructor
  · rintro ⟨k, hk, heq⟩
    obtain ⟨frames, hroot⟩ := Node.exists_plug_of_mem hk
    cases heq
    refine ⟨?_, h.listeners_plug hroot⟩
    rw [Tree.contains, (h.includes hroot).get?_eq]
    rfl
  · rintro ⟨hid, rfl⟩
    obtain ⟨frames, n, hroot, rfl, -⟩ | ⟨-, -, hnone⟩ := h.known_or_unknown id
    · refine ⟨n, ?_, by rw [h.listeners_plug hroot]⟩
      rw [hroot]
      exact Node.mem_toList_plug_of_mem n.mem_toList_self
    · rw [Tree.contains, hnone] at hid
      cases hid

/-- The names of the audience differ. -/
theorem nodup_names (h : Represents t o) : (o.root.hears.map Prod.fst).Nodup := by
  rw [Node.map_fst_hears]
  exact h.nodup

theorem contains_of_listener (h : listener ∈ t.listeners id) : t.contains id := by
  rw [Tree.listeners] at h
  rw [Tree.contains]
  cases he : t.arena.get? id with
  | none =>
    rw [he] at h
    cases h
  | some entry => rfl

/-! ### What is heard of one edit -/

/-- What one listener hears of an edit: what is announced to its condition. -/
theorem filter_events (h : Represents t o)
    (hd : Distinct (o.after e).root.hears (o.after e).nextListener)
    (hlistener : listener ∈ (t.after e).listeners id) :
    (t.perform e).events.filter (·.listener == listener) =
      (if id ∈ t.told e then (t.notice? e).toList else []).map fun notice =>
        { notice with listener } := by
  have hafter := h.after e
  obtain ⟨hnotice, hevents⟩ | ⟨notice, frames, n, hnotice, hstart, hroot, hevents⟩ :=
    h.told_or_silent e
  · rw [hevents, hnotice]
    split <;> rfl
  have htold : t.told e = (Node.heads frames n).map (·.id) := by
    rw [Tree.told, hstart, ← hafter.upwards_plug hroot]
    rfl
  have hmem : listener ∈ (Node.heads frames n).flatMap (·.listeners) ↔ id ∈ t.told e := by
    rw [htold, List.mem_flatMap, List.mem_map]
    refine exists_congr fun head => and_congr_right fun hhead => ?_
    constructor
    · intro hhas
      have hself := hafter.mem_hears.mpr ⟨contains_of_listener hlistener, rfl⟩
      have hother := Node.mem_hears_of_heads hhead
      rw [← hroot] at hother
      exact congrArg Prod.fst (hd.owner hother hself hhas hlistener)
    · rintro rfl
      rwa [hafter.listeners_of_mem hroot hhead] at hlistener
  rw [hevents, filter_flatMap_events (Node.nodup_listeners (hroot ▸ hd)), hnotice]
  simp only [hmem]
  split <;> rfl

/-- Whoever hears of an edit is a listener after it. -/
theorem listener_mem (h : Represents t o) {event : Event} (hevent : event ∈ (t.perform e).events) :
    event.listener ∈ numbers (o.after e).root.hears := by
  obtain ⟨-, hevents⟩ | ⟨notice, frames, n, -, -, hroot, hevents⟩ := h.told_or_silent e
  · rw [hevents] at hevent
    cases hevent
  · rw [hevents] at hevent
    obtain ⟨head, hhead, hevent⟩ := List.mem_flatMap.mp hevent
    obtain ⟨listener, hlistener, rfl⟩ := List.mem_map.mp hevent
    rw [hroot]
    exact mem_numbers.mpr ⟨_, Node.mem_hears_of_heads hhead, hlistener⟩

/-- All that was heard before and what is heard of an edit. -/
theorem heard_after (h : Represents t o) (e : Edit) :
    (t.after e).heard = t.heard ++ (t.perform e).events := by
  cases hx : o.perform e with
  | error cause => rw [Tree.after, h.perform_error hx, List.append_nil]
  | ok x =>
    have hcall := h.call e
    rw [hx] at hcall
    obtain ⟨u, hu, -, hheard⟩ := hcall
    simp only [Tree.after, Tree.perform, Tree.outcome, hu, hheard, List.drop_left]

/-- A listener stays with its condition. -/
theorem listener_after (h : Represents t o) (hlistener : listener ∈ t.listeners id)
    (hid : (t.after e).contains id) (hunsubscribe : e ≠ .unsubscribe id listener) :
    listener ∈ (t.after e).listeners id := by
  have hafter := h.after e
  exact (h.follows_after e).stays h.nodup_names hafter.nodup_names
    (h.mem_hears.mpr ⟨contains_of_listener hlistener, rfl⟩) (hafter.mem_hears.mpr ⟨hid, rfl⟩)
    hlistener hunsubscribe

/-- The listeners of a condition that is in use after a change are those that it had before. -/
theorem listeners_after (h : Represents t o) (hnotice : (t.notice? e).isSome)
    (hid : (t.after e).contains id) : (t.after e).listeners id = t.listeners id := by
  have hafter := h.after e
  have hmem := hafter.mem_hears.mpr ⟨hid, rfl⟩
  have hchange : e.change? ≠ none := by
    intro hnone
    rw [Tree.notice?] at hnotice
    split at hnotice
    · cases hnotice
    · rw [Edit.notice?_of_silent hnone] at hnotice
      cases hnotice
  obtain hkept | ⟨hnil, hnew⟩ := ((h.follows_after e).shifts hchange).kept hafter.nodup_names hmem
  · exact (h.mem_hears.mp hkept).2.symm
  · rw [hnil]
    cases he : t.arena.get? id with
    | none => rw [Tree.listeners, he]; rfl
    | some entry =>
      have hbefore := h.mem_hears.mpr ⟨show t.contains id by rw [Tree.contains, he]; rfl, rfl⟩
      exact absurd (Multiset.mem_map_of_mem Prod.fst hbefore) hnew

theorem told_path (h : Represents t o) {notice : Notice} (hnotice : t.notice? e = some notice) :
    ∃ start, t.start? e = some start ∧ (t.told e).head? = some start ∧
      (t.told e).getLast? = some t.root ∧
      (t.told e).IsChain fun id block => (t.after e).parent id = .ok (some block) := by
  have hafter := h.after e
  obtain ⟨hnone, -⟩ | ⟨notice, frames, n, -, hstart, hroot, -⟩ := h.told_or_silent e
  · rw [hnotice] at hnone
    cases hnone
  have htold : t.told e = (t.after e).upwards n.id := by rw [Tree.told, hstart]; rfl
  rw [htold]
  refine ⟨n.id, hstart, ?_, ?_, hafter.isChain_upwards hroot⟩
  · rw [hafter.upwards_plug hroot]
    rfl
  · rw [hafter.getLast?_upwards hroot, h.root_after]

/-! ### What is heard in the course of edits -/

/-- What one listener hears in the course of edits: what is announced to its condition. -/
theorem filter_eventsOf (h : Represents t o) (hd : Distinct o.root.hears o.nextListener)
    (hlistener : listener ∈ t.listeners id) {edits : List Edit}
    (hid : ∀ done, done <+: edits → (t.run done).contains id)
    (hedits : .unsubscribe id listener ∉ edits) :
    (t.eventsOf edits).filter (·.listener == listener) =
      (t.noticesAt id edits).map fun notice => { notice with listener } := by
  induction edits generalizing t o with
  | nil => rfl
  | cons e edits ih =>
    rw [List.mem_cons, not_or] at hedits
    have hd' := hd.follows (h.follows_after e)
    have hkept := h.listener_after hlistener (hid [e] (List.prefix_append [e] edits))
      (Ne.symm hedits.1)
    have hlater := ih (h.after e) hd' hkept
      (fun done hdone => hid (e :: done) (List.cons_prefix_cons.mpr ⟨rfl, hdone⟩)) hedits.2
    rw [Tree.eventsOf, Tree.noticesAt, List.filter_append, List.map_append, hlater,
      h.filter_events hd' hkept]

/-- A listener that is not there never hears anything, unless it is a new one. -/
theorem silent_run (h : Represents t o) (hold : listener < o.nextListener)
    (hgone : listener ∉ numbers o.root.hears) (edits : List Edit) :
    ∀ event ∈ t.eventsOf edits, event.listener ≠ listener := by
  induction edits generalizing t o with
  | nil => exact List.forall_mem_nil _
  | cons e edits ih =>
    obtain ⟨hold', hgone'⟩ := (h.follows_after e).not_mem hold hgone
    rw [Tree.eventsOf]
    intro event hevent
    rcases List.mem_append.mp hevent with hevent | hevent
    · exact fun heq => hgone' (heq ▸ h.listener_mem hevent)
    · exact ih (h.after e) hold' hgone' event hevent

/-- The listeners of a condition that leaves are gone. -/
theorem gone_after (h : Represents t o) (hd : Distinct o.root.hears o.nextListener)
    (hleaves : t.Leaves id e) (hlistener : listener ∈ t.listeners id) :
    listener ∉ numbers (o.after e).root.hears := by
  intro hmem
  obtain ⟨⟨other, listeners⟩, hother, hhas⟩ := mem_numbers.mp hmem
  have hself := h.mem_hears.mpr ⟨contains_of_listener hlistener, rfl⟩
  have hold := hd.below listener (mem_numbers.mpr ⟨_, hself, hlistener⟩)
  obtain ⟨others, hbefore, hthere⟩ := (h.follows_after e).origin hother hhas hold
  -- No other condition takes the listener over, so its condition would still be in use.
  have hsame : other = id := congrArg Prod.fst (hd.owner hbefore hself hthere hlistener)
  rw [hsame] at hother
  exact ((h.leaves_iff e id).mp hleaves).2 ((h.after e).mem_hears.mp hother).1

/-- They hear neither of the edit by which the condition leaves nor of any later one. -/
theorem silent_after (h : Represents t o) (hd : Distinct o.root.hears o.nextListener)
    (hleaves : t.Leaves id e) (hlistener : listener ∈ t.listeners id) (later : List Edit) :
    ∀ event ∈ t.eventsOf (e :: later), event.listener ≠ listener := by
  have hgone := h.gone_after hd hleaves hlistener
  have hself := h.mem_hears.mpr ⟨contains_of_listener hlistener, rfl⟩
  have hold : listener < (o.after e).nextListener := by
    have hbelow := hd.below listener (mem_numbers.mpr ⟨_, hself, hlistener⟩)
    obtain ⟨-, hnext⟩ | ⟨-, hnext⟩ := (h.follows_after e).le_or_cons <;> omega
  intro event hevent
  rw [Tree.eventsOf] at hevent
  rcases List.mem_append.mp hevent with hevent | hevent
  · exact fun heq => hgone (heq ▸ h.listener_mem hevent)
  · exact (h.after e).silent_run hold hgone later event hevent

/-- What is announced to the root is all that is announced. -/
theorem noticesAt_root (h : Represents t o) (edits : List Edit) :
    t.noticesAt t.root edits = t.notices edits := by
  induction edits generalizing t o with
  | nil => rfl
  | cons e edits ih =>
    have hlater := ih (h.after e)
    rw [h.root_after] at hlater
    rw [Tree.noticesAt, Tree.notices, hlater]
    cases hnotice : t.notice? e with
    | none => split <;> rfl
    | some notice =>
      obtain ⟨start, -, -, hlast, -⟩ := h.told_path hnotice
      rw [if_pos (List.mem_of_getLast? hlast)]

theorem root_run (h : Represents t o) (edits : List Edit) : (t.run edits).root = t.root := by
  induction edits generalizing t o with
  | nil => rfl
  | cons e edits ih => exact (ih (h.after e)).trans (h.root_after e)

theorem contains_root (h : Represents t o) : t.contains t.root := by
  rw [h.contains_eq, h.node_root]
  rfl

theorem heard_run (h : Represents t o) (edits : List Edit) :
    (t.run edits).heard = t.heard ++ t.eventsOf edits := by
  induction edits generalizing t o with
  | nil => exact (List.append_nil _).symm
  | cons e edits ih =>
    rw [Tree.eventsOf, ← List.append_assoc, ← h.heard_after]
    exact ih (h.after e)

/-- A new listener comes behind those that a condition has. -/
theorem listeners_subscribe (h : Represents t o)
    (hanswer : (t.perform (.subscribe id)).answer = .ok (.listener listener)) :
    (t.after (.subscribe id)).listeners id = t.listeners id ++ [listener] := by
  rw [h.answer_perform, Outline.perform] at hanswer
  cases hn : o.node id with
  | error cause =>
    rw [Outline.subscribe, hn] at hanswer
    cases hanswer
  | ok n =>
    rw [Outline.subscribe, hn] at hanswer
    cases hanswer
    obtain ⟨frames, hroot, rfl⟩ := Outline.exists_plug_of_node h.nodup hn
    let listen (head : Head) : Head :=
      { head with listeners := head.listeners ++ [o.nextListener] }
    have hid : (n.withHead listen).id = n.id := by cases n <;> rfl
    have hafter : (o.after (.subscribe n.id)).root = .plug frames (n.withHead listen) := by
      rw [Outline.after, Outline.perform, Outline.subscribe, hn]
      exact h.update_eq hroot _
    have hlisteners := (h.after (.subscribe n.id)).listeners_plug hafter
    rw [hid, Node.head_withHead] at hlisteners
    rw [hlisteners, h.listeners_plug hroot]

/-- A tree that represents an outline with different listeners tells them of changes. -/
theorem announces (h : Represents t o) (hd : Distinct o.root.hears o.nextListener)
    (ho : Ordered o.root.hears) : t.Announces where
  events e := by
    obtain ⟨hnotice, hevents⟩ | ⟨notice, frames, n, hnotice, hstart, hroot, hevents⟩ :=
      h.told_or_silent e
    · rw [hnotice, hevents]
      rfl
    · rw [hnotice, hevents, Tree.told, hstart]
      exact ((h.after e).events_upwards hroot notice).symm
  told hnotice := h.told_path hnotice
  once e := by
    obtain ⟨-, hevents⟩ | ⟨notice, frames, n, -, -, hroot, hevents⟩ := h.told_or_silent e
    · rw [hevents]
      exact List.nodup_nil
    · have hd' := hd.follows (h.follows_after e)
      have hnodup := Node.nodup_listeners (hroot ▸ hd')
      rw [hevents, List.map_flatMap]
      simp only [Notice.events, List.map_map, Function.comp_def, List.map_id']
      exact hnodup
  subscribed hanswer := h.listeners_subscribe hanswer
  ordered id := by
    cases he : t.arena.get? id with
    | none =>
      rw [Tree.listeners, he]
      exact List.Pairwise.nil
    | some entry =>
      exact ho _ (h.mem_hears.mpr ⟨show t.contains id by rw [Tree.contains, he]; rfl, rfl⟩)
  kept hnotice hid := h.listeners_after hnotice hid
  heard edits := h.heard_run edits
  member hlistener edits hid hedits := h.filter_eventsOf hd hlistener hid hedits
  root hlistener edits hedits := by
    rw [← h.noticesAt_root]
    refine h.filter_eventsOf hd hlistener (fun done _ => ?_) hedits
    rw [← h.root_run done]
    exact (h.run done).contains_root
  gone hleaves hlistener later := h.silent_after hd hleaves hlistener later

end Represents

/-- In every tree that comes about by edits, listeners hear of every change at their condition or
below it, once, in order and of nothing else. -/
theorem Tree.announces_run (factory : OperatorFactory) (edits : List Edit) :
    ((ofFactory factory).run edits).Announces :=
  (represents_run factory edits).announces (distinct_run factory edits).1
    (distinct_run factory edits).2

end EntityQuery
