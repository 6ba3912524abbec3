import EntityQuery.Proofs.Tree.Unknown
import EntityQuery.Proofs.Tree.Recompiling
import Mathlib.Data.Multiset.Bind

/-!
# Who listens where

The audience of a tree is the collection of its names, each with the numbers of its listeners. An
edit other than a subscription takes names out of it, or adds names to which nobody listens yet, and
leaves the listeners of all other names as they are. No two listeners have the same number.

* `Audience`, `Node.hears` — names with listeners.
* `Audience.Follows` — how the audience changes by an edit; `Outline.Step.follows`.
* `Audience.Distinct` — the numbers of listeners differ; `distinct_run`.
-/

namespace EntityQuery

/-- Names with the numbers of their listeners. -/
abbrev Audience := Multiset (NodeId × List Nat)

namespace Audience

variable {a b : Audience} {id : NodeId} {listener next : Nat}

/-- The numbers of all listeners. -/
def numbers (a : Audience) : Multiset Nat := a.bind fun x => (x.2 : Multiset Nat)

@[simp] theorem numbers_cons (x : NodeId × List Nat) (a : Audience) :
    numbers (x ::ₘ a) = x.2 + numbers a := Multiset.cons_bind ..

@[simp] theorem numbers_add (a b : Audience) : numbers (a + b) = numbers a + numbers b :=
  Multiset.add_bind ..

theorem mem_numbers : listener ∈ numbers a ↔ ∃ x ∈ a, listener ∈ x.2 := by
  simp only [numbers, Multiset.mem_bind, Multiset.mem_coe]

theorem numbers_le (h : b ≤ a) : numbers b ≤ numbers a := by
  obtain ⟨gone, rfl⟩ := Multiset.le_iff_exists_add.mp h
  rw [numbers_add]
  exact Multiset.le_add_right _ _

theorem numbers_silent {fresh : Audience} (h : ∀ x ∈ fresh, x.2 = []) : numbers fresh = 0 := by
  rw [Multiset.eq_zero_iff_forall_notMem]
  intro listener hmem
  obtain ⟨x, hx, hlistener⟩ := mem_numbers.mp hmem
  rw [h x hx] at hlistener
  cases hlistener

/-! ### How an audience changes -/

/-- Names go, or names come to which nobody listens. -/
def Shifts (a b : Audience) : Prop := b ≤ a ∨ ∃ fresh, b = a + fresh ∧ ∀ x ∈ fresh, x.2 = []

theorem shifts_refl (a : Audience) : Shifts a a := Or.inl (le_refl a)

/-- A change of a part of the audience. -/
theorem Shifts.add_right (h : Shifts a b) (rest : Audience) : Shifts (a + rest) (b + rest) := by
  obtain hle | ⟨fresh, rfl, hsilent⟩ := h
  · exact Or.inl (add_le_add_left hle rest)
  · exact Or.inr ⟨fresh, add_right_comm a fresh rest, hsilent⟩

/-- How an audience changes by an edit, with the number of the next listener. -/
inductive Follows (next : Nat) : Edit → Audience → Audience → Nat → Prop
  | shifted {e : Edit} {a b : Audience} (h : Shifts a b) : Follows next e a b next
  | subscribed {id : NodeId} {listeners : List Nat} {rest : Audience} :
      Follows next (.subscribe id) ((id, listeners) ::ₘ rest)
        ((id, listeners ++ [next]) ::ₘ rest) (next + 1)
  | unsubscribed {id : NodeId} {listeners : List Nat} {rest : Audience} (listener : Nat) :
      Follows next (.unsubscribe id listener) ((id, listeners) ::ₘ rest)
        ((id, listeners.filter (· != listener)) ::ₘ rest) next

/-- Only subscriptions change the listeners of a name. -/
theorem Follows.shifts {e : Edit} {next' : Nat} (h : Follows next e a b next')
    (hchange : e.change? ≠ none) : Shifts a b := by
  cases h with
  | shifted h => exact h
  | subscribed => exact absurd rfl hchange
  | unsubscribed listener => exact absurd rfl hchange

/-- All listeners have different numbers, and the next one gets another one. -/
structure Distinct (a : Audience) (next : Nat) : Prop where
  nodup : (numbers a).Nodup
  below : ∀ listener ∈ numbers a, listener < next

/-- Listeners keep different numbers if they become fewer. -/
theorem Distinct.of_le (h : Distinct a next) (hle : numbers b ≤ numbers a) : Distinct b next where
  nodup := Multiset.nodup_of_le hle h.nodup
  below listener hmem := h.below listener (Multiset.mem_of_le hle hmem)

theorem Shifts.numbers_le (h : Shifts a b) : numbers b ≤ numbers a := by
  obtain hle | ⟨fresh, rfl, hsilent⟩ := h
  · exact Audience.numbers_le hle
  · rw [numbers_add, numbers_silent hsilent, add_zero]

variable {e : Edit} {next' : Nat}

/-- An edit takes no listener into the audience but the next one. -/
theorem Follows.le_or_cons (h : Follows next e a b next') :
    numbers b ≤ numbers a ∧ next' = next ∨
      numbers b = next ::ₘ numbers a ∧ next' = next + 1 := by
  cases h with
  | shifted h => exact Or.inl ⟨h.numbers_le, rfl⟩
  | subscribed =>
    refine Or.inr ⟨?_, rfl⟩
    rw [numbers_cons, numbers_cons, ← Multiset.coe_add, Multiset.coe_singleton, add_right_comm,
      add_comm, Multiset.singleton_add]
  | unsubscribed listener =>
    refine Or.inl ⟨?_, rfl⟩
    rw [numbers_cons, numbers_cons]
    exact add_le_add_left (Multiset.coe_le.mpr List.filter_sublist.subperm) _

theorem Distinct.follows (hd : Distinct a next) (h : Follows next e a b next') :
    Distinct b next' := by
  obtain ⟨hle, rfl⟩ | ⟨hcons, rfl⟩ := h.le_or_cons
  · exact hd.of_le hle
  · constructor
    · rw [hcons, Multiset.nodup_cons]
      exact ⟨fun hmem => Nat.lt_irrefl _ (hd.below _ hmem), hd.nodup⟩
    · intro listener hmem
      rw [hcons, Multiset.mem_cons] at hmem
      obtain rfl | hmem := hmem
      · exact Nat.lt_succ_self _
      · exact Nat.lt_succ_of_lt (hd.below listener hmem)

/-- A listener listens to one name only. -/
theorem Distinct.owner (hd : Distinct a next) {x y : NodeId × List Nat} (hx : x ∈ a) (hy : y ∈ a)
    (hlx : listener ∈ x.2) (hly : listener ∈ y.2) : x = y := by
  by_contra hne
  obtain ⟨rest, rfl⟩ := Multiset.exists_cons_of_mem hx
  have hrest : y ∈ rest := (Multiset.mem_cons.mp hy).resolve_left (Ne.symm hne)
  have hnodup := hd.nodup
  rw [numbers_cons, Multiset.nodup_add] at hnodup
  exact Multiset.disjoint_left.mp hnodup.2.2 hlx (mem_numbers.mpr ⟨y, hrest, hly⟩)

/-- A listener that is not in the audience never comes into it again. -/
theorem Follows.not_mem (h : Follows next e a b next') (hold : listener < next)
    (hgone : listener ∉ numbers a) : listener < next' ∧ listener ∉ numbers b := by
  obtain ⟨hle, rfl⟩ | ⟨hcons, rfl⟩ := h.le_or_cons
  · exact ⟨hold, fun hmem => hgone (Multiset.mem_of_le hle hmem)⟩
  · refine ⟨Nat.lt_succ_of_lt hold, ?_⟩
    rw [hcons, Multiset.mem_cons, not_or]
    exact ⟨Nat.ne_of_lt hold, hgone⟩

/-! ### Names with different listeners -/

/-- A name is listed with its listeners once. -/
theorem unique (hnodup : (a.map Prod.fst).Nodup) {listeners others : List Nat}
    (h : (id, listeners) ∈ a) (hothers : (id, others) ∈ a) : listeners = others := by
  by_contra hne
  obtain ⟨rest, rfl⟩ := Multiset.exists_cons_of_mem h
  have hrest := (Multiset.mem_cons.mp hothers).resolve_left fun heq =>
    hne (congrArg Prod.snd heq).symm
  have hid : id ∈ rest.map Prod.fst := Multiset.mem_map_of_mem Prod.fst hrest
  rw [Multiset.map_cons, Multiset.nodup_cons] at hnodup
  exact hnodup.1 hid

/-- A name keeps its listeners, unless nobody listens to it because it is new. -/
theorem Shifts.kept (h : Shifts a b) (hnodup : (b.map Prod.fst).Nodup) {listeners : List Nat}
    (hb : (id, listeners) ∈ b) :
    (id, listeners) ∈ a ∨ listeners = [] ∧ id ∉ a.map Prod.fst := by
  obtain hle | ⟨fresh, rfl, hsilent⟩ := h
  · exact Or.inl (Multiset.mem_of_le hle hb)
  · rw [Multiset.map_add, Multiset.nodup_add] at hnodup
    refine (Multiset.mem_add.mp hb).imp_right fun hfresh => ⟨hsilent _ hfresh, ?_⟩
    exact Multiset.disjoint_right.mp hnodup.2.2 (Multiset.mem_map_of_mem Prod.fst hfresh)

/-- Where the listeners of one name are replaced, all others stay as they are. -/
theorem replaced {i : NodeId} {before after listeners others : List Nat} {rest : Audience}
    (hnodup : (((i, before) ::ₘ rest).map Prod.fst).Nodup)
    (h : (id, listeners) ∈ (i, before) ::ₘ rest) (hothers : (id, others) ∈ (i, after) ::ₘ rest) :
    id = i ∧ listeners = before ∧ others = after ∨ listeners = others := by
  rw [Multiset.map_cons, Multiset.nodup_cons] at hnodup
  have hnot : ∀ x, (i, x) ∉ rest := by
    intro x hmem
    have hi : i ∈ rest.map Prod.fst := Multiset.mem_map_of_mem Prod.fst hmem
    exact hnodup.1 hi
  rcases Multiset.mem_cons.mp h with heq | hrest <;>
    rcases Multiset.mem_cons.mp hothers with heq' | hrest'
  · cases heq
    cases heq'
    exact Or.inl ⟨rfl, rfl, rfl⟩
  · cases heq
    exact absurd hrest' (hnot _)
  · cases heq'
    exact absurd hrest (hnot _)
  · exact Or.inr (unique hnodup.2 hrest hrest')

/-- A listener stays where it is as long as the name stays, unless it is taken away. -/
theorem Follows.stays (h : Follows next e a b next') (ha : (a.map Prod.fst).Nodup)
    (hb : (b.map Prod.fst).Nodup) {listeners others : List Nat} (hid : (id, listeners) ∈ a)
    (hafter : (id, others) ∈ b) (hlistener : listener ∈ listeners)
    (hunsubscribe : e ≠ .unsubscribe id listener) : listener ∈ others := by
  cases h with
  | shifted h =>
    obtain hkept | ⟨-, hnew⟩ := h.kept hb hafter
    · exact unique ha hid hkept ▸ hlistener
    · exact absurd (Multiset.mem_map_of_mem Prod.fst hid) hnew
  | subscribed =>
    obtain ⟨-, rfl, rfl⟩ | rfl := replaced ha hid hafter
    · exact List.mem_append_left _ hlistener
    · exact hlistener
  | unsubscribed gone =>
    obtain ⟨rfl, rfl, rfl⟩ | rfl := replaced ha hid hafter
    · refine List.mem_filter.mpr ⟨hlistener, bne_iff_ne.mpr ?_⟩
      rintro rfl
      exact hunsubscribe rfl
    · exact hlistener

/-- A listener of a name was there before, unless it is the next one. -/
theorem Follows.origin (h : Follows next e a b next') {listeners : List Nat}
    (hid : (id, listeners) ∈ b) (hlistener : listener ∈ listeners) (hold : listener < next) :
    ∃ others, (id, others) ∈ a ∧ listener ∈ others := by
  cases h with
  | shifted h =>
    obtain hle | ⟨fresh, rfl, hsilent⟩ := h
    · exact ⟨listeners, Multiset.mem_of_le hle hid, hlistener⟩
    · refine (Multiset.mem_add.mp hid).elim (fun hid => ⟨listeners, hid, hlistener⟩) fun hid => ?_
      have hnil : listeners = [] := hsilent _ hid
      rw [hnil] at hlistener
      cases hlistener
  | subscribed =>
    obtain heq | hrest := Multiset.mem_cons.mp hid
    · cases heq
      have hkept := (List.mem_append.mp hlistener).resolve_right fun hnext =>
        Nat.ne_of_lt hold (List.mem_singleton.mp hnext)
      exact ⟨_, Multiset.mem_cons_self _ _, hkept⟩
    · exact ⟨listeners, Multiset.mem_cons_of_mem hrest, hlistener⟩
  | unsubscribed gone =>
    obtain heq | hrest := Multiset.mem_cons.mp hid
    · cases heq
      exact ⟨_, Multiset.mem_cons_self _ _, List.mem_of_mem_filter hlistener⟩
    · exact ⟨listeners, Multiset.mem_cons_of_mem hrest, hlistener⟩

/-- The listeners of every name are in the order of their numbers. -/
def Ordered (a : Audience) : Prop := ∀ x ∈ a, x.2.Pairwise (· < ·)

theorem Ordered.follows (ho : Ordered a) (hd : Distinct a next) (h : Follows next e a b next') :
    Ordered b := by
  cases h with
  | shifted h =>
    obtain hle | ⟨fresh, rfl, hsilent⟩ := h
    · exact fun x hx => ho x (Multiset.mem_of_le hle hx)
    · refine fun x hx => (Multiset.mem_add.mp hx).elim (ho x) fun hfresh => ?_
      rw [hsilent x hfresh]
      exact List.Pairwise.nil
  | @subscribed id listeners rest =>
    intro x hx
    obtain rfl | hrest := Multiset.mem_cons.mp hx
    · refine List.pairwise_append.mpr
        ⟨ho _ (Multiset.mem_cons_self _ _), List.pairwise_singleton _ _, ?_⟩
      intro listener hlistener other hother
      rw [List.mem_singleton.mp hother]
      exact hd.below listener (mem_numbers.mpr ⟨_, Multiset.mem_cons_self _ _, hlistener⟩)
    · exact ho x (Multiset.mem_cons_of_mem hrest)
  | unsubscribed gone =>
    intro x hx
    obtain rfl | hrest := Multiset.mem_cons.mp hx
    · exact (ho _ (Multiset.mem_cons_self _ _)).filter _
    · exact ho x (Multiset.mem_cons_of_mem hrest)

end Audience

/-! ### The audience of a node -/

namespace Node

/-- The names of a node and of the nodes below it, with their listeners. -/
def hears (n : Node) : Audience := (n.toList.map fun k => (k.id, k.head.listeners) : List _)

theorem mem_hears {n : Node} {x : NodeId × List Nat} :
    x ∈ n.hears ↔ ∃ k ∈ n.toList, (k.id, k.head.listeners) = x := by
  rw [hears, Multiset.mem_coe, List.mem_map]

theorem map_fst_hears (n : Node) : n.hears.map Prod.fst = (n.ids : Multiset NodeId) := by
  rw [hears, Multiset.map_coe, List.map_map]
  rfl

theorem hears_block (head : Head) (children : List Node) :
    (block head children).hears = (head.id, head.listeners) ::ₘ (children.map hears).sum := by
  have below : (((children.flatMap toList).map fun k => (k.id, k.head.listeners) : List _) :
      Audience) = (children.map hears).sum := by
    induction children with
    | nil => rfl
    | cons c cs ih =>
      rw [List.flatMap_cons, List.map_append, ← Multiset.coe_add, ih, List.map_cons, List.sum_cons]
      rfl
  rw [hears, toList_block, List.map_cons, ← Multiset.cons_coe, below]
  rfl

theorem hears_forgetful (n : Node) : n.forgetful.hears = n.hears := by
  rw [hears, toList_forgetful, List.map_map]
  refine congrArg _ (List.map_congr_left fun k _ => ?_)
  cases k <;> rfl

theorem hears_touch (start : NodeId) (n : Node) : (n.touch start).hears = n.hears := by
  rw [← hears_forgetful, forgetful_touch, hears_forgetful]

theorem hears_compile (n : Node) : n.compile.result.hears = n.hears := by
  rw [← hears_forgetful, forgetful_compile, hears_forgetful]

theorem hears_withHead (f : Head → Head) (n : Node) :
    (n.withHead f).hears =
      ((f n.head).id, (f n.head).listeners) ::ₘ (n.children.map hears).sum := by
  cases n with
  | leaf head content => rfl
  | block head children => exact hears_block (f head) children

theorem hears_eq_cons (n : Node) :
    n.hears = (n.id, n.head.listeners) ::ₘ (n.children.map hears).sum := by
  cases n with
  | leaf head content => rfl
  | block head children => exact hears_block head children

/-- The listeners of the nodes around a node of a name. -/
def surroundings (frames : List NodeFrame) : Audience :=
  (frames.map fun frame => (frame.head.id, frame.head.listeners) ::ₘ
    ((frame.before ++ frame.after).map hears).sum).sum

/-- A node in its surroundings has the audience of both. -/
theorem hears_plug (frames : List NodeFrame) (n : Node) :
    (plug frames n).hears = n.hears + surroundings frames := by
  induction frames generalizing n with
  | nil => exact (add_zero _).symm
  | cons frame frames ih =>
    rw [plug, ih, NodeFrame.attach, hears_block, surroundings, surroundings, List.map_cons,
      List.sum_cons, List.map_append, List.map_cons, List.sum_append, List.sum_cons,
      List.map_append, List.sum_append, ← Multiset.singleton_add, ← Multiset.singleton_add]
    abel

/-- Nobody listens to a node that is planted. -/
theorem silent_plant (s : Slots) (c : Condition) : ∀ x ∈ (plant s c).1.hears, x.2 = [] := by
  intro x hx
  obtain ⟨k, hk, rfl⟩ := mem_hears.mp hx
  exact (head_plant s c k hk).2

/-- The nodes with a property and those without it have the whole audience between them. -/
theorem sum_hears_filter (p : Node → Bool) (ns : List Node) :
    ((ns.filter p).map hears).sum + ((ns.filter (!p ·)).map hears).sum = (ns.map hears).sum := by
  rw [← List.sum_append, ← List.map_append]
  exact ((List.filter_append_perm p ns).map hears).sum_eq

end Node

namespace Outline

variable {o : Outline} {e : Edit} {x : Outcome EditAnswer}

open Audience Node

/-- An edit that puts another node in the place of a node, and ends with the walk upwards. -/
theorem follows_changed {frames : List NodeFrame} {m n : Node} {slots : Slots} {answer : EditAnswer}
    {start : NodeId} {notice : Notice} (hroot : o.root = .plug frames m)
    (h : Shifts m.hears n.hears) : Follows o.nextListener e o.root.hears
      ((o.place frames n slots).changed answer start notice).outline.root.hears o.nextListener := by
  apply Follows.shifted
  rw [changed, hears_touch, hroot, root_place, hears_plug, hears_plug]
  exact h.add_right _

/-- How the audience changes by a step. -/
theorem Step.follows (h : o.Step e x) :
    Follows o.nextListener e o.root.hears x.outline.root.hears x.outline.nextListener := by
  cases h with
  | idle h hnew => exact .shifted (shifts_refl _)
  | @added _ frames head children c n slots hroot hplant hchange htarget =>
    refine follows_changed hroot (Or.inr ⟨n.hears, ?_, ?_⟩)
    · simp only [hears_block, List.map_append, List.sum_append, List.map_singleton,
        List.sum_singleton, Multiset.cons_add]
    · have hsilent := silent_plant o.slots c
      rwa [hplant] at hsilent
  | @removed frame frames n hroot =>
    refine follows_changed (m := frame.attach n) hroot (Or.inl ?_)
    have hsplit : (frame.attach n).hears =
        (Node.block frame.head (frame.before ++ frame.after)).hears + n.hears := by
      simp only [NodeFrame.attach, hears_block, List.map_append, List.map_cons, List.sum_append,
        List.sum_cons, ← Multiset.singleton_add]
      abel
    rw [hsplit]
    exact Multiset.le_add_right _ _
  | @grouped frames head children candidates first second others id slots hroot hmatched htake =>
    refine follows_changed hroot (Or.inr ⟨{(id, [])}, ?_, ?_⟩)
    · rw [← hmatched]
      have hsplit := sum_hears_filter (candidates.contains ·.id) children
      simp only [hears_block, List.map_append, List.sum_append, List.map_singleton,
        List.sum_singleton, ← hsplit, ← Multiset.singleton_add]
      abel
    · intro x hx
      rw [Multiset.mem_singleton.mp hx]
  | @emptied frame frames head children candidates hroot hsome hall =>
    refine follows_changed (m := frame.attach (.block head children)) hroot (Or.inl ?_)
    have hsplit : (frame.attach (.block head children)).hears =
        (Node.block frame.head (frame.before ++ children ++ frame.after)).hears +
          {(head.id, head.listeners)} := by
      simp only [NodeFrame.attach, hears_block, List.map_append, List.map_cons, List.sum_append,
        List.sum_cons, ← Multiset.singleton_add]
      abel
    rw [hsplit]
    exact Multiset.le_add_right _ _
  | @kept frame frames head children moved kept candidates hroot hmoved hkept hsome hrest =>
    let after : NodeFrame := ⟨frame.head, frame.before ++ moved, frame.after⟩
    have hsame : (after.attach (.block head kept)).hears =
        (frame.attach (.block head children)).hears := by
      have hsplit := sum_hears_filter (candidates.contains ·.id) children
      rw [hmoved, hkept] at hsplit
      simp only [after, NodeFrame.attach, hears_block, List.map_append, List.map_cons,
        List.sum_append, List.sum_cons, ← hsplit, ← Multiset.singleton_add]
      abel
    exact follows_changed (m := frame.attach (.block head children))
      (n := after.attach (.block head kept)) hroot (hsame ▸ shifts_refl _)
  | cleared hroot =>
    refine follows_changed hroot (Or.inl ?_)
    rw [hears_block, hears_block]
    exact Multiset.cons_le_cons _ (Multiset.zero_le _)
  | refilled after hroot hchange hedit htarget hnew => exact follows_changed hroot (shifts_refl _)
  | relabelled logical hroot =>
    refine follows_changed hroot ?_
    rw [hears_withHead, hears_eq_cons]
    exact shifts_refl _
  | subscribed hroot =>
    simp only [hroot, root_place]
    rw [hears_plug, hears_plug, hears_withHead, hears_eq_cons, Multiset.cons_add,
      Multiset.cons_add]
    exact .subscribed
  | unsubscribed listener hroot =>
    rw [hroot, root_place, nextListener_place, hears_plug, hears_plug, hears_withHead,
      hears_eq_cons, Multiset.cons_add, Multiset.cons_add]
    exact .unsubscribed listener
  | @compiled frames n hroot =>
    apply Follows.shifted
    rw [hroot, root_place, hears_plug, hears_plug, hears_compile]
    exact shifts_refl _

end Outline

namespace Represents

open Audience

variable {t : Tree} {o : Outline}

/-- How the audience changes by an edit. -/
theorem follows_after (h : Represents t o) (e : Edit) :
    Follows o.nextListener e o.root.hears (o.after e).root.hears (o.after e).nextListener := by
  rw [Outline.after]
  cases hx : o.perform e with
  | error cause => exact .shifted (shifts_refl _)
  | ok x => exact (Outline.step_perform h.nodup hx).follows

theorem distinct_run (h : Represents t o) (hd : Distinct o.root.hears o.nextListener)
    (ho : Ordered o.root.hears) (edits : List Edit) :
    Distinct (o.run edits).root.hears (o.run edits).nextListener ∧
      Ordered (o.run edits).root.hears := by
  induction edits generalizing t o with
  | nil => exact ⟨hd, ho⟩
  | cons e edits ih =>
    have hfollows := h.follows_after e
    exact ih (h.after e) (hd.follows hfollows) (ho.follows hd hfollows)

end Represents

/-- In every outline that comes about by edits, all listeners have different numbers, and those of
every name are in order. -/
theorem distinct_run (factory : OperatorFactory) (edits : List Edit) :
    Audience.Distinct ((Outline.ofFactory factory).run edits).root.hears
        ((Outline.ofFactory factory).run edits).nextListener ∧
      Audience.Ordered ((Outline.ofFactory factory).run edits).root.hears := by
  refine (represents_ofFactory factory).distinct_run ⟨Multiset.nodup_zero, nofun⟩ ?_ edits
  intro x hx
  rw [Multiset.mem_singleton.mp hx]
  exact List.Pairwise.nil

end EntityQuery
