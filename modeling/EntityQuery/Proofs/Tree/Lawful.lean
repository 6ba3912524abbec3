import EntityQuery.Proofs.Operator.Domain
import EntityQuery.Proofs.Tree.Inverses
import EntityQuery.Proofs.Tree.Wording

/-!
# Lawful leaves

A leaf has a property, an operator and a value, and each of them can be changed alone. A leaf is
lawful if its operator is offered for its property, and its value is null or in the domain of the
operator. Edits keep all leaves lawful if every operator that they name is offered, every leaf that
they bring along is lawful, and no value is set as it is.

* `Leaf.Lawful`, `Edit.Permitted`, `Tree.Permits` — lawful leaves, and edits that keep them lawful.
* `Leaf.lawful_fitted`, `Leaf.Lawful.read` — values that operators make.
* `Node.EachLeaf` — what all leaves below a node have in common.
* `Outline.Step.eachLeaf` — steps that leave the contents of leaves alone.
* `Tree.lawful_run` — in a permitted run all leaves are lawful.
-/

namespace EntityQuery

/-! ### Leaves -/

namespace Leaf

variable {factory : OperatorFactory} {c : Leaf}

/-- The operator is offered for the property, and the value is null or in its domain. -/
structure Lawful (factory : OperatorFactory) (c : Leaf) : Prop where
  offers : factory.Offers c.path c.operator
  value : c.value = .null ∨ c.operator.Admits c.path.kind c.path.nullable c.value

/-- An offered operator makes a leaf lawful, whatever its value is. -/
theorem lawful_fitted (h : factory.Offers c.path c.operator) : c.fitted.Lawful factory where
  offers := h
  value := by
    obtain ⟨b, hb⟩ := h.atHand
    have hfitted := b.defaultValue_eq_null_or_admits c.path.kind c.path.nullable c.value
    rw [← hb] at hfitted
    exact hfitted.imp_right fun hadmits => ⟨b, hb, hadmits⟩

/-- Raw input leaves a leaf lawful, also if it denotes no value. -/
theorem Lawful.read (h : c.Lawful factory) (raw : String) :
    Lawful factory { c with value := (c.operator.parseRaw? c.path.kind raw).getD .null } where
  offers := h.offers
  value := by
    obtain ⟨b, hb⟩ := h.offers.atHand
    cases hparsed : c.operator.parseRaw? c.path.kind raw with
    | none => exact Or.inl rfl
    | some v =>
      rw [hb] at hparsed
      exact Or.inr ⟨b, hb, BuiltIn.admits_of_parseRaw? hparsed⟩

end Leaf

/-! ### Edits -/

/-- The edits that keep leaves lawful: a named operator is offered for the property of its leaf, a
detached condition has lawful leaves, and no value is set as it is. -/
def Edit.Permitted (factory : OperatorFactory) (content : NodeId → Except ConditionError Leaf) :
    Edit → Prop
  | .add _ c => ∀ leaf ∈ c.leaves, leaf.Lawful factory
  | .createNew _ path operator? _ => ∀ operator ∈ operator?, factory.Offers path operator
  | .setOperator id operator => ∀ leaf, content id = .ok leaf → factory.Offers leaf.path operator
  | .setValue .. => False
  | _ => True

/-- Every edit of a list is permitted when its turn comes. -/
def Tree.Permits (t : Tree) : List Edit → Prop
  | [] => True
  | e :: edits => e.Permitted t.factory t.content ∧ (t.after e).Permits edits

theorem Tree.Permits.of_append {t : Tree} {before later : List Edit}
    (h : t.Permits (before ++ later)) : t.Permits before := by
  induction before generalizing t with
  | nil => trivial
  | cons e before ih => exact ⟨h.1, ih h.2⟩

/-! ### Leaves below a node -/

theorem Condition.allLeaves_eq_flatMap (cs : List Condition) :
    Condition.allLeaves cs = cs.flatMap Condition.leaves := by
  induction cs with
  | nil => rfl
  | cons c cs ih => rw [allLeaves, ih, List.flatMap_cons]

namespace Node

variable {P : Leaf → Prop} {m n : Node} {head : Head} {children : List Node}

/-- Every leaf below a node has a content of this kind. -/
def EachLeaf (P : Leaf → Prop) (n : Node) : Prop := ∀ c ∈ n.toCondition.leaves, P c

theorem eachLeaf_leaf {content : Leaf} : (leaf head content).EachLeaf P ↔ P content :=
  List.forall_mem_singleton

theorem eachLeaf_block :
    (block head children).EachLeaf P ↔ ∀ c ∈ children, c.EachLeaf P := by
  simp only [EachLeaf, toCondition, Condition.leaves, Condition.allLeaves_eq_flatMap,
    allToCondition_eq_map, List.flatMap_map, List.mem_flatMap, forall_exists_index, and_imp]
  exact ⟨fun h c hc leaf hleaf => h leaf c hc hleaf, fun h leaf c hc hleaf => h c hc leaf hleaf⟩

theorem eachLeaf_withHead (f : Head → Head) : (n.withHead f).EachLeaf P ↔ n.EachLeaf P := by
  cases n <;> rfl

/-- Remembered expressions do not count. -/
theorem eachLeaf_of_forgetful (h : m.forgetful = n.forgetful) : m.EachLeaf P ↔ n.EachLeaf P := by
  rw [EachLeaf, ← toCondition_forgetful, h, toCondition_forgetful, EachLeaf]

theorem eachLeaf_attach {frame : NodeFrame} :
    (frame.attach n).EachLeaf P ↔
      n.EachLeaf P ∧ ∀ c ∈ frame.before ++ frame.after, c.EachLeaf P := by
  rw [NodeFrame.attach, eachLeaf_block, List.forall_mem_append, List.forall_mem_cons,
    List.forall_mem_append, and_left_comm]

/-- The leaves below a node in its surroundings are those below the node and those below the
siblings around it. -/
theorem eachLeaf_plug {frames : List NodeFrame} :
    (plug frames n).EachLeaf P ↔
      n.EachLeaf P ∧ ∀ frame ∈ frames, ∀ c ∈ frame.before ++ frame.after, c.EachLeaf P := by
  induction frames generalizing n with
  | nil => exact (and_iff_left (List.forall_mem_nil _)).symm
  | cons frame frames ih => rw [plug, ih, eachLeaf_attach, List.forall_mem_cons, and_assoc]

/-- A node takes the place of another. -/
theorem EachLeaf.replace {frames : List NodeFrame} (h : (plug frames m).EachLeaf P)
    (hn : n.EachLeaf P) : (plug frames n).EachLeaf P :=
  eachLeaf_plug.mpr ⟨hn, (eachLeaf_plug.mp h).2⟩

end Node

/-! ### Steps -/

namespace Outline

variable {P : Leaf → Prop} {o : Outline} {e : Edit} {frames : List NodeFrame} {m n : Node}

theorem eachLeaf_changed {α : Type} {answer : α} {start : NodeId} {notice : Notice}
    {slots : Slots} (h : o.root.EachLeaf P) (hroot : o.root = .plug frames m)
    (hn : n.EachLeaf P) :
    ((o.place frames n slots).changed answer start notice).outline.root.EachLeaf P := by
  rw [hroot] at h
  rw [changed, Node.eachLeaf_of_forgetful (Node.forgetful_touch _ _)]
  exact h.replace hn

theorem Step.factory {x : Outcome EditAnswer} (h : o.Step e x) :
    x.outline.factory = o.factory := by
  cases h <;> rfl

/-- A step that neither adds a condition nor changes a leaf brings no new content of a leaf. -/
theorem Step.eachLeaf {x : Outcome EditAnswer} (hstep : o.Step e x) (h : o.root.EachLeaf P)
    (he : ∀ change, e.change? = some change →
      change ∉ [.added, .propertyChanged, .operatorChanged, .valueChanged]) :
    x.outline.root.EachLeaf P := by
  have hplace {frames : List NodeFrame} {m : Node} (hroot : o.root = .plug frames m) :
      m.EachLeaf P := (Node.eachLeaf_plug.mp (hroot ▸ h)).1
  have hbeside {frame : NodeFrame} {frames : List NodeFrame} {m : Node}
      (hroot : o.root = .plug (frame :: frames) m) :
      ∀ c ∈ frame.before ++ frame.after, c.EachLeaf P :=
    (Node.eachLeaf_plug.mp (hroot ▸ h)).2 frame List.mem_cons_self
  cases hstep with
  | idle hnotice hnew => exact h
  | added hroot hplant hchange htarget => exact absurd List.mem_cons_self (he _ hchange)
  | @removed frame frames n hroot =>
    exact eachLeaf_changed (m := frame.attach n) h hroot
      (Node.eachLeaf_block.mpr (hbeside hroot))
  | @grouped frames head children candidates first second others id slots hroot hmatched htake =>
    have hchildren := Node.eachLeaf_block.mp (hplace hroot)
    refine eachLeaf_changed h hroot (Node.eachLeaf_block.mpr ?_)
    rw [List.forall_mem_append, List.forall_mem_singleton, Node.eachLeaf_block, ← hmatched]
    exact ⟨fun c hc => hchildren c (List.mem_of_mem_filter hc),
      fun c hc => hchildren c (List.mem_of_mem_filter hc)⟩
  | @emptied frame frames head children candidates hroot hsome hall =>
    have hchildren := Node.eachLeaf_block.mp (hplace hroot)
    have hsiblings := hbeside hroot
    refine eachLeaf_changed (m := frame.attach (.block head children)) h hroot
      (Node.eachLeaf_block.mpr ?_)
    rw [List.forall_mem_append] at hsiblings
    rw [List.forall_mem_append, List.forall_mem_append]
    exact ⟨⟨hsiblings.1, hchildren⟩, hsiblings.2⟩
  | @kept frame frames head children moved kept candidates hroot hmoved hkept hsome hrest =>
    let after : NodeFrame := ⟨frame.head, frame.before ++ moved, frame.after⟩
    have hchildren := Node.eachLeaf_block.mp (hplace hroot)
    have hsiblings := hbeside hroot
    rw [List.forall_mem_append] at hsiblings
    refine eachLeaf_changed (m := frame.attach (.block head children))
      (n := after.attach (.block head kept)) h hroot
      (Node.eachLeaf_attach.mpr ⟨Node.eachLeaf_block.mpr ?_, ?_⟩)
    · rw [← hkept]
      exact fun c hc => hchildren c (List.mem_of_mem_filter hc)
    · rw [List.forall_mem_append, List.forall_mem_append, ← hmoved]
      exact ⟨⟨hsiblings.1, fun c hc => hchildren c (List.mem_of_mem_filter hc)⟩, hsiblings.2⟩
  | cleared hroot =>
    exact eachLeaf_changed h hroot (Node.eachLeaf_block.mpr (List.forall_mem_nil _))
  | refilled after hroot hchange hedit htarget hnew =>
    exact absurd (List.mem_cons_of_mem _ hchange) (he _ hedit)
  | relabelled logical hroot =>
    exact eachLeaf_changed h hroot ((Node.eachLeaf_withHead _).mpr (hplace hroot))
  | subscribed hroot =>
    exact Node.EachLeaf.replace (hroot ▸ h) ((Node.eachLeaf_withHead _).mpr (hplace hroot))
  | unsubscribed listener hroot =>
    exact Node.EachLeaf.replace (hroot ▸ h) ((Node.eachLeaf_withHead _).mpr (hplace hroot))
  | compiled hroot =>
    exact Node.EachLeaf.replace (hroot ▸ h)
      ((Node.eachLeaf_of_forgetful (Node.forgetful_compile _)).mpr (hplace hroot))

section Perform

variable (hnodup : o.root.ids.Nodup)

include hnodup

theorem eachLeaf_add {block : NodeId} {c : Condition} {y : Outcome NodeId}
    (h : o.root.EachLeaf P) (hc : ∀ leaf ∈ c.leaves, P leaf) (hy : o.add block c = .ok y) :
    y.outline.root.EachLeaf P := by
  cases hchildren : o.children block with
  | error cause =>
    rw [add, hchildren] at hy
    cases hy
  | ok children =>
    obtain ⟨frames, head, hroot, rfl⟩ := exists_plug_of_children hnodup hchildren
    have hplanted : (Node.plant o.slots c).1.EachLeaf P := by
      rw [Node.EachLeaf, Node.toCondition_plant]
      exact hc
    rw [add_plug hnodup hroot rfl] at hy
    cases hy
    refine eachLeaf_changed h hroot (Node.eachLeaf_block.mpr ?_)
    rw [List.forall_mem_append, List.forall_mem_singleton]
    exact ⟨Node.eachLeaf_block.mp (Node.eachLeaf_plug.mp (hroot ▸ h)).1, hplanted⟩

theorem eachLeaf_setContent {id : NodeId} {content after : Leaf} (change : Change)
    (h : o.root.EachLeaf P) (hcontent : o.content id = .ok content) (hafter : P after) :
    (o.setContent id change after).outline.root.EachLeaf P := by
  obtain ⟨frames, head, hroot, rfl⟩ := exists_plug_of_content hnodup hcontent
  rw [setContent_plug hnodup hroot]
  exact eachLeaf_changed h hroot (Node.eachLeaf_leaf.mpr hafter)

/-- What holds of each leaf holds of the leaf of a name. -/
theorem holds_content {id : NodeId} {content : Leaf} (h : o.root.EachLeaf P)
    (hcontent : o.content id = .ok content) : P content := by
  obtain ⟨frames, head, hroot, -⟩ := exists_plug_of_content hnodup hcontent
  exact Node.eachLeaf_leaf.mp (Node.eachLeaf_plug.mp (hroot ▸ h)).1

/-! ### Lawful leaves -/

variable (hfactory : o.factory.Lawful) (h : o.root.EachLeaf (Leaf.Lawful o.factory))

include hfactory h

theorem lawful_createNew {block : NodeId} {path : Path} {operator? : Option Operator}
    {value? : Option Value} {y : Outcome NodeId}
    (hoperator : ∀ operator ∈ operator?, o.factory.Offers path operator)
    (hy : o.createNew block path operator? value? = .ok y) :
    y.outline.root.EachLeaf (Leaf.Lawful o.factory) := by
  rw [createNew] at hy
  split at hy
  · cases hy
  · split at hy
    · cases hy
    next operator hchosen =>
      have hoffers : o.factory.Offers path operator := by
        cases operator? with
        | none => exact hfactory.offers_default hchosen
        | some given => exact hoperator operator hchosen
      refine eachLeaf_add hnodup h ?_ hy
      exact List.forall_mem_singleton.mpr (Leaf.lawful_fitted hoffers)

theorem lawful_createFromTemplate {block : NodeId} {y : Outcome NodeId}
    (hy : o.createFromTemplate block = .ok y) :
    y.outline.root.EachLeaf (Leaf.Lawful o.factory) := by
  rw [createFromTemplate] at hy
  split at hy
  · cases hy
  · split at hy
    · cases hy
    · split at hy
      · cases hy
      next template htemplate =>
        -- the operator of the template is offered for the property of the template
        have hoffers := (holds_content hnodup h htemplate).offers
        refine lawful_createNew hnodup hfactory h (fun operator hoperator => ?_) hy
        rw [Option.mem_some_iff] at hoperator
        exact hoperator ▸ hoffers

theorem lawful_setProperty {id : NodeId} {path : Path} {y : Outcome Unit}
    (hy : o.setProperty id path = .ok y) : y.outline.root.EachLeaf (Leaf.Lawful o.factory) := by
  rw [setProperty] at hy
  split at hy
  · cases hy
  next content hcontent =>
    simp only at hy
    split at hy
    · cases hy
    next operator hchosen =>
      cases hy
      refine eachLeaf_setContent hnodup _ h hcontent (Leaf.lawful_fitted ?_)
      split at hchosen
      next hkept =>
        cases hchosen
        exact ⟨(holds_content hnodup h hcontent).offers.atHand, hkept⟩
      next => exact hfactory.offers_iff.mpr (List.mem_of_head? hchosen)

omit hfactory in
theorem lawful_setRaw {id : NodeId} {raw : String} {y : Outcome Bool}
    (hy : o.setRaw id raw = .ok y) : y.outline.root.EachLeaf (Leaf.Lawful o.factory) := by
  rw [setRaw] at hy
  split at hy
  · cases hy
  next content hcontent =>
    simp only [setValue, hcontent] at hy
    cases hy
    exact eachLeaf_setContent hnodup .valueChanged h hcontent
      ((holds_content hnodup h hcontent).read raw)

/-- An edit that is permitted keeps all leaves lawful. -/
theorem lawful_perform {e : Edit} {x : Outcome EditAnswer} (he : e.Permitted o.factory o.content)
    (hx : o.perform e = .ok x) : x.outline.root.EachLeaf (Leaf.Lawful o.factory) := by
  have hother (hsilent : ∀ change, e.change? = some change →
      change ∉ [.added, .propertyChanged, .operatorChanged, .valueChanged]) :
      x.outline.root.EachLeaf (Leaf.Lawful o.factory) :=
    (step_perform hnodup hx).eachLeaf h hsilent
  cases e with
  | add block c =>
    obtain ⟨y, hy, rfl⟩ := ok_of_map hx
    exact eachLeaf_add hnodup h he hy
  | createNew block path operator? value? =>
    obtain ⟨y, hy, rfl⟩ := ok_of_map hx
    exact lawful_createNew hnodup hfactory h he hy
  | createFromTemplate block =>
    obtain ⟨y, hy, rfl⟩ := ok_of_map hx
    exact lawful_createFromTemplate hnodup hfactory h hy
  | setProperty id path =>
    obtain ⟨y, hy, rfl⟩ := ok_of_map hx
    exact lawful_setProperty hnodup hfactory h hy
  | setOperator id operator =>
    obtain ⟨y, hy, rfl⟩ := ok_of_map hx
    cases hcontent : o.content id with
    | error cause =>
      rw [setOperator, hcontent] at hy
      cases hy
    | ok content =>
      rw [setOperator, hcontent] at hy
      cases hy
      exact eachLeaf_setContent hnodup .operatorChanged h hcontent
        (Leaf.lawful_fitted (he content hcontent))
  | setValue id value => exact he.elim
  | setRaw id raw =>
    obtain ⟨y, hy, rfl⟩ := ok_of_map hx
    exact lawful_setRaw hnodup h hy
  | _ => exact hother fun _ hchange => by cases hchange <;> decide

theorem lawful_after {e : Edit} (he : e.Permitted o.factory o.content) :
    (o.after e).factory = o.factory ∧
      (o.after e).root.EachLeaf (Leaf.Lawful o.factory) := by
  rw [after]
  cases hx : o.perform e with
  | error cause => exact ⟨rfl, h⟩
  | ok x =>
    exact ⟨(step_perform hnodup hx).factory, lawful_perform hnodup hfactory h he hx⟩

end Perform

end Outline

/-! ### Runs -/

/-- A permitted run keeps all leaves lawful. -/
theorem Represents.eachLeaf_run {t : Tree} {o : Outline} (hrep : Represents t o)
    (hfactory : o.factory.Lawful) (h : o.root.EachLeaf (Leaf.Lawful o.factory)) {edits : List Edit}
    (hpermits : t.Permits edits) : (o.run edits).root.EachLeaf (Leaf.Lawful o.factory) := by
  induction edits generalizing t o with
  | nil => exact h
  | cons e edits ih =>
    obtain ⟨he, hpermits⟩ := hpermits
    rw [hrep.factory, funext hrep.content_eq] at he
    obtain ⟨hsame, hlawful⟩ := Outline.lawful_after hrep.nodup hfactory h he
    have hrun := ih (hrep.after e) (hsame ▸ hfactory) (hsame ▸ hlawful) hpermits
    rw [hsame] at hrun
    exact hrun

namespace Tree

/-- At every moment of a permitted run, every leaf is lawful. -/
theorem lawful_run {factory : OperatorFactory} (hfactory : factory.Lawful) {edits : List Edit}
    (hpermits : (ofFactory factory).Permits edits) {before : List Edit} (hbefore : before <+: edits)
    {id : NodeId} {leaf : Leaf} (hleaf : ((ofFactory factory).run before).content id = .ok leaf) :
    leaf.Lawful factory := by
  obtain ⟨later, rfl⟩ := hbefore
  have hrep := represents_run factory before
  have hnone : (Outline.ofFactory factory).root.EachLeaf (Leaf.Lawful factory) :=
    Node.eachLeaf_block.mpr (List.forall_mem_nil _)
  have hlawful := (represents_ofFactory factory).eachLeaf_run hfactory hnone hpermits.of_append
  rw [hrep.content_eq] at hleaf
  exact Outline.holds_content hrep.nodup hlawful hleaf

/-- A list of names is read. It is given up for a property that holds numbers, and the next list has
a number that does not fit. -/
theorem lawful_run_membership :
    let factory := OperatorFactory.standard.withPatterns
    let name : Path := ⟨"name", .text, false, "Person", 0⟩
    let age : Path := ⟨"age", .signed .w8, true, "Person", 0⟩
    let young : Leaf := Leaf.fitted ⟨age, .membership false, .list [.uint 7]⟩
    let before : List Edit := [.add ⟨0, 0⟩ (.leaf .and young),
      .createNew ⟨0, 0⟩ name (some (.membership true)) none, .setRaw ⟨2, 0⟩ "Ann, Bob"]
    let edits := before ++ [.setProperty ⟨2, 0⟩ age, .setRaw ⟨2, 0⟩ "3, 400",
      .createFromTemplate ⟨0, 0⟩]
    factory.Lawful ∧ (ofFactory factory).Permits edits ∧
      (∃ leaf, ((ofFactory factory).run before).content ⟨2, 0⟩ = .ok leaf ∧
        leaf.value = .list [.text "Ann", .text "Bob"] ∧ leaf.Lawful factory) ∧
      ∃ leaf, ((ofFactory factory).run edits).content ⟨2, 0⟩ = .ok leaf ∧
        leaf.value = .null ∧ leaf.Lawful factory := by
  intro factory name age young before edits
  have hfactory : factory.Lawful :=
    OperatorFactory.lawful_withPatterns OperatorFactory.atHand_standard
  have hname : factory.Offers name (.membership true) := ⟨⟨.membership true, rfl⟩, rfl⟩
  have hyoung : young.Lawful factory :=
    Leaf.lawful_fitted (c := ⟨age, .membership false, _⟩) ⟨⟨.membership false, rfl⟩, rfl⟩
  have hpermits : (ofFactory factory).Permits edits := by
    simp only [edits, before, List.cons_append, List.nil_append, Permits, Edit.Permitted, and_true,
      Option.mem_some_iff, forall_eq']
    exact ⟨List.forall_mem_singleton.mpr hyoung, hname⟩
  have hread : ((ofFactory factory).run before).content ⟨2, 0⟩ =
      .ok ⟨name, .membership true, .list [.text "Ann", .text "Bob"]⟩ := by
    simp only [before, factory, name, young, age]
    rfl
  have hlast : ((ofFactory factory).run edits).content ⟨2, 0⟩ =
      .ok ⟨age, .membership true, .null⟩ := by
    simp only [edits, before, factory, name, young, age]
    rfl
  exact ⟨hfactory, hpermits,
    ⟨_, hread, rfl, lawful_run hfactory hpermits (List.prefix_append ..) hread⟩,
    ⟨_, hlast, rfl, lawful_run hfactory hpermits List.prefix_rfl hlast⟩⟩

end Tree

end EntityQuery
