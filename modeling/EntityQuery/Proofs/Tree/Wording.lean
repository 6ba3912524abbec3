import EntityQuery.Proofs.Tree.Meaning

/-!
# Conditions in words

The text of a condition is a row of tokens: leaves, connectives and parentheses. All connectives
bind alike and to the left. What the tokens say is what the condition compiles to.

* `Token`, `Formula` — texts as tokens, and what they say.
* `Reads` — how tokens are read.
* `Formula.ofTokens?` — reading from left to right; `Reads.unique`: tokens are read in one way.
* `Told` — a text and an expression have the same tokens; `Condition.told` for every condition.
* `Tree.describesCompiled_run` — the text of a condition of a tree says what it compiles to.
-/

namespace EntityQuery

/-! ### Tokens -/

/-- A token of a condition in words. The text of a leaf is one token, whatever it looks like. -/
inductive Token where
  | leaf (content : Leaf)
  | connective (op : Logical)
  | opening
  | closing

namespace Token

/-- A token as text. A connective stands between blanks. -/
def text (labels : Labels) : Token → String
  | .leaf content => content.text labels
  | .connective op => " " ++ op.word ++ " "
  | .opening => "("
  | .closing => ")"

/-- Tokens as text. -/
def texts (labels : Labels) : List Token → String
  | [] => ""
  | t :: ts => t.text labels ++ texts labels ts

/-- The leaf of a token. -/
def leaf? : Token → Option Leaf
  | .leaf content => some content
  | _ => none

theorem texts_append (labels : Labels) (ts us : List Token) :
    texts labels (ts ++ us) = texts labels ts ++ texts labels us := by
  induction ts with
  | nil => exact String.empty_append.symm
  | cons t ts ih => rw [List.cons_append, texts, ih, texts, String.append_assoc]

end Token

/-- Leaves under connectives. -/
inductive Formula where
  | leaf (content : Leaf)
  | combine (op : Logical) (left right : Formula)

/-- The expression of a formula. -/
def Formula.expr : Formula → Expr
  | .leaf content => content.expr
  | .combine op left right => .combine op left.expr right.expr

/-! ### Reading -/

/-- A term is a leaf or a chain in parentheses, and a chain is a row of terms. -/
inductive Phrase where
  | term
  | chain

/-- How tokens are read. In a chain all connectives bind alike, and to the left. -/
inductive Reads : Phrase → List Token → Formula → Prop
  | leaf (content : Leaf) : Reads .term [.leaf content] (.leaf content)
  | enclosed {ts : List Token} {f : Formula} (h : Reads .chain ts f) :
      Reads .term (.opening :: ts ++ [.closing]) f
  | alone {ts : List Token} {f : Formula} (h : Reads .term ts f) : Reads .chain ts f
  | joined {ts us : List Token} {f g : Formula} (h : Reads .chain ts f) (op : Logical)
      (hterm : Reads .term us g) : Reads .chain (ts ++ .connective op :: us) (.combine op f g)

namespace Formula

/-- A formula after what stands before it: nothing, or a formula and a connective. -/
def after (before? : Option (Formula × Logical)) (f : Formula) : Formula :=
  match before? with
  | none => f
  | some (before, op) => .combine op before f

mutual

/-- Read a term and what comes after it. What stands before the parentheses that are open is kept,
the innermost ones first. -/
def readTerm (outer : List (Option (Formula × Logical))) (before? : Option (Formula × Logical)) :
    List Token → Option Formula
  | .leaf content :: ts => readOn outer (after before? (.leaf content)) ts
  | .opening :: ts => readTerm (before? :: outer) none ts
  | _ => none

/-- Read what comes after a formula. -/
def readOn (outer : List (Option (Formula × Logical))) (f : Formula) : List Token → Option Formula
  | [] => if outer.isEmpty then some f else none
  | .connective op :: ts => readTerm outer (some (f, op)) ts
  | .closing :: ts =>
    match outer with
    | [] => none
    | before? :: outer => readOn outer (after before? f) ts
  | _ => none

end

/-- Read a chain. -/
def ofTokens? (ts : List Token) : Option Formula := readTerm [] none ts

/-- Reading a phrase goes on behind it. A chain stands at the beginning, or behind a parenthesis. -/
theorem readTerm_append {phrase : Phrase} {ts : List Token} {f : Formula} (h : Reads phrase ts f)
    (outer : List (Option (Formula × Logical))) {before? : Option (Formula × Logical)}
    (hbefore : phrase = .chain → before? = none) (rest : List Token) :
    readTerm outer before? (ts ++ rest) = readOn outer (after before? f) rest := by
  induction h generalizing outer before? rest with
  | leaf content => rfl
  | enclosed h ih =>
    rw [List.cons_append, List.cons_append, List.append_assoc, readTerm, ih _ fun _ => rfl]
    rfl
  | alone h ih => exact ih outer (fun hphrase => nomatch hphrase) rest
  | joined h op hterm ih ihterm =>
    cases hbefore rfl
    rw [List.append_assoc, ih outer fun _ => rfl, List.cons_append, readOn,
      ihterm outer fun hphrase => nomatch hphrase]
    rfl

end Formula

namespace Reads

variable {phrase : Phrase} {ts : List Token} {f g : Formula}

theorem ofTokens?_eq (h : Reads .chain ts f) : Formula.ofTokens? ts = some f := by
  have hread := Formula.readTerm_append h [] (fun _ => rfl) []
  rwa [List.append_nil] at hread

/-- Tokens are read in one way. -/
theorem unique (h : Reads .chain ts f) (hg : Reads .chain ts g) : g = f :=
  Option.some.inj (hg.ofTokens?_eq.symm.trans h.ofTokens?_eq)

/-- Read tokens have a text: one of them is a leaf. -/
theorem texts_ne_empty (h : Reads phrase ts f) (labels : Labels) : Token.texts labels ts ≠ "" := by
  induction h with
  | leaf content => simp [Token.texts, Token.text, Leaf.text]
  | enclosed h ih => simp [Token.texts, Token.text]
  | alone h ih => exact ih
  | joined h op hterm ih ihterm =>
    rw [Token.texts_append]
    exact fun hempty => ih (String.append_eq_empty_iff.mp hempty).1

end Reads

/-! ### The text and the expression of a condition -/

namespace Condition

mutual

/-- The leaves of a condition, from left to right. -/
def leaves : Condition → List Leaf
  | .leaf _ content => [content]
  | .block _ children => allLeaves children

/-- The leaves of conditions, from left to right. -/
def allLeaves : List Condition → List Leaf
  | [] => []
  | c :: cs => leaves c ++ allLeaves cs

end

/-- The text of a condition among others: in parentheses if it needs them, but never parentheses
alone. -/
def words (labels : Labels) (c : Condition) : String :=
  if (text labels c).isEmpty then "" else enclose c (text labels c)

end Condition

/-- A text and an expression are those of the same tokens, which have some leaves; or there are no
leaves, no text and no expression. The tokens do not depend on the labels. -/
def Told (phrase : Phrase) (leaves : List Leaf) (words : Labels → String) : Option Expr → Prop
  | none => leaves = [] ∧ ∀ labels, words labels = ""
  | some e => ∃ ts f, Reads phrase ts f ∧ f.expr = e ∧ ts.filterMap Token.leaf? = leaves ∧
      ∀ labels, words labels = Token.texts labels ts

namespace Told

variable {phrase : Phrase} {leaves others : List Leaf} {words after : Labels → String}
  {e? before? : Option Expr}

theorem congr (h : Told phrase leaves words e?) (hwords : ∀ labels, after labels = words labels) :
    Told phrase leaves after e? := by
  cases e? with
  | none => exact ⟨h.1, fun labels => (hwords labels).trans (h.2 labels)⟩
  | some e =>
    obtain ⟨ts, f, hreads, he, hleaves, htext⟩ := h
    exact ⟨ts, f, hreads, he, hleaves, fun labels => (hwords labels).trans (htext labels)⟩

/-- There is a text exactly if there is an expression. -/
theorem eq_empty_iff (h : Told phrase leaves words e?) (labels : Labels) :
    words labels = "" ↔ e? = none := by
  cases e? with
  | none => exact iff_of_true (h.2 labels) rfl
  | some e =>
    obtain ⟨ts, f, hreads, -, -, htext⟩ := h
    rw [htext]
    exact iff_of_false (hreads.texts_ne_empty labels) nofun

/-- A chain in parentheses is a term. -/
theorem enclosed (h : Told .chain leaves words e?) :
    Told .term leaves
      (fun labels => if (words labels).isEmpty then "" else "(" ++ words labels ++ ")") e? := by
  cases e? with
  | none =>
    refine ⟨h.1, fun labels => ?_⟩
    beta_reduce
    rw [h.2]
    rfl
  | some e =>
    obtain ⟨ts, f, hreads, he, hleaves, htext⟩ := h
    refine ⟨_, f, .enclosed hreads, he, ?_, fun labels => ?_⟩
    · simpa [List.filterMap_cons, Token.leaf?] using hleaves
    · have hne := hreads.texts_ne_empty labels
      beta_reduce
      rw [htext, if_neg (mt String.isEmpty_iff.mp hne), List.cons_append, Token.texts,
        Token.texts_append]
      simp [Token.texts, Token.text, String.append_assoc]

/-- A term is joined to the chain before it, in the text and in the expression. -/
theorem join (h : Told .chain leaves words before?) (hterm : Told .term others after e?)
    (op : Logical) :
    Told .chain (leaves ++ others)
      (fun labels => if (after labels).isEmpty then words labels
        else Condition.joinText (words labels) op (after labels))
      (Condition.joinNext before? op e?) := by
  cases e? with
  | none =>
    obtain ⟨rfl, hafter⟩ := hterm
    rw [List.append_nil]
    refine h.congr fun labels => ?_
    rw [hafter]
    rfl
  | some e =>
    have hsome (labels : Labels) : ¬ (after labels).isEmpty := fun hempty =>
      nomatch (hterm.eq_empty_iff labels).mp (String.isEmpty_iff.mp hempty)
    obtain ⟨us, g, hus, rfl, rfl, hafter⟩ := hterm
    cases before? with
    | none =>
      obtain ⟨rfl, hwords⟩ := h
      refine ⟨us, g, .alone hus, rfl, rfl, fun labels => ?_⟩
      beta_reduce
      rw [if_neg (hsome labels), hwords, hafter]
      rfl
    | some before =>
      have hbefore (labels : Labels) : ¬ (words labels).isEmpty := fun hempty =>
        nomatch (h.eq_empty_iff labels).mp (String.isEmpty_iff.mp hempty)
      obtain ⟨ts, f, hts, rfl, rfl, hwords⟩ := h
      refine ⟨_, _, .joined hts op hus, rfl, ?_, fun labels => ?_⟩
      · simp [List.filterMap_cons, Token.leaf?]
      · beta_reduce
        rw [if_neg (hsome labels), Condition.joinText, if_neg (hbefore labels), hwords, hafter,
          Token.texts_append]
        simp [Token.texts, Token.text, String.append_assoc]

end Told

namespace Condition

theorem texts_cons (labels : Labels) (before : String) (c : Condition) (cs : List Condition) :
    texts labels before (c :: cs) =
      texts labels (if (words labels c).isEmpty then before
        else joinText before c.logical (words labels c)) cs := by
  rw [texts, words]
  by_cases hempty : (text labels c).isEmpty
  · simp [hempty]
  · have henclosed : (enclose c (text labels c)).isEmpty = false := by
      rw [enclose]
      split
      · simp
      · exact Bool.eq_false_iff.mpr hempty
    simp [hempty, henclosed]

theorem told_all {cs : List Condition}
    (hcs : ∀ c ∈ cs, Told .term c.leaves (words · c) c.expr?) {leaves : List Leaf}
    {before : Labels → String} {before? : Option Expr}
    (h : Told .chain leaves before before?) :
    Told .chain (leaves ++ allLeaves cs) (fun labels => texts labels (before labels) cs)
      (exprs? before? cs) := by
  induction cs generalizing leaves before before? with
  | nil =>
    rw [allLeaves, List.append_nil]
    exact h
  | cons c cs ih =>
    rw [allLeaves, ← List.append_assoc]
    have hrest := ih (fun c hc => hcs c (List.mem_cons_of_mem _ hc))
      (h.join (hcs c List.mem_cons_self) c.logical)
    exact hrest.congr fun labels => texts_cons labels (before labels) c cs

/-- The text of a condition is read as its expression. Among others it is a term. -/
theorem told (c : Condition) :
    Told .chain c.leaves (text · c) c.expr? ∧ Told .term c.leaves (words · c) c.expr? := by
  induction c using nested with
  | leaf logical content =>
    have hne (labels : Labels) : (content.text labels).isEmpty = false := by simp [Leaf.text]
    have hterm : Told .term [content] (content.text ·) (some content.expr) := by
      refine ⟨_, _, .leaf content, rfl, rfl, fun labels => ?_⟩
      rw [Token.texts, Token.texts, String.append_empty, Token.text]
    constructor
    · obtain ⟨ts, f, hreads, hrest⟩ := hterm
      exact ⟨ts, f, .alone hreads, hrest⟩
    · refine hterm.congr fun labels => ?_
      rw [words, text, hne, enclose, children]
      rfl
  | block logical cs ih =>
    have hnone : Told .chain [] (fun _ => "") none := ⟨rfl, fun _ => rfl⟩
    have hchain : Told .chain (allLeaves cs) (fun labels => texts labels "" cs) (exprs? none cs) :=
      told_all (fun c hc => (ih c hc).2) hnone
    refine ⟨hchain, ?_⟩
    rcases cs with _ | ⟨c, _ | ⟨d, cs⟩⟩
    · exact ⟨rfl, fun _ => rfl⟩
    · -- a block with one child has the text of that child, which is a term already
      have hc := (ih c List.mem_cons_self).2
      rw [leaves, allLeaves, allLeaves, List.append_nil, expr?, exprs?, exprs?]
      have hexpr : joinNext none c.logical c.expr? = c.expr? := by cases c.expr? <;> rfl
      rw [hexpr]
      refine hc.congr fun labels => ?_
      have htext : text labels (.block logical [c]) = words labels c := by
        rw [text, texts_cons, texts, joinText]
        by_cases hempty : (words labels c).isEmpty
        · rw [if_pos hempty, String.isEmpty_iff.mp hempty]
        · rw [if_neg hempty]
          rfl
      rw [words, htext]
      by_cases hempty : (words labels c).isEmpty
      · rw [if_pos hempty, String.isEmpty_iff.mp hempty]
      · rw [if_neg hempty]
        rfl
    · have henclose (logical : Logical) (words : String) {c d : Condition} {cs : List Condition} :
          enclose (.block logical (c :: d :: cs)) words = "(" ++ words ++ ")" :=
        if_pos (Nat.succ_lt_succ (Nat.succ_pos _))
      refine hchain.enclosed.congr fun labels => ?_
      rw [words, text, henclose]

end Condition

namespace Node

/-- A node has a first leaf exactly if its detached condition has a leaf. -/
theorem isSome_firstLeaf? (n : Node) : n.firstLeaf?.isSome = n.toCondition.hasLeaf := by
  induction n using nested with
  | leaf head content => rfl
  | block head children ih =>
    rw [firstLeaf?_block, List.isSome_findSome?, toCondition, Condition.hasLeaf,
      Condition.anyHasLeaf_eq_any, allToCondition_eq_map, List.any_map, Bool.eq_iff_iff,
      List.any_eq_true, List.any_eq_true]
    exact exists_congr fun c => and_congr_right fun hc => by rw [ih c hc, Function.comp_apply]

end Node

namespace Tree

/-- The text of a condition says what the condition compiles to. There is a text exactly if there is
an expression, and exactly if there is a first leaf. It is a text of tokens whose leaves are those
of the detached condition; the tokens are read in one way, and what is read is the expression. -/
def DescribesCompiled (t : Tree) (id : NodeId) : Prop :=
  ∃ s c, t.snapshot id = .ok s ∧ t.compile id = .ok c ∧
    (t.firstLeaf? id = none ↔ c.expr? = none) ∧
    (∀ labels, t.describe id labels = .ok "" ↔ c.expr? = none) ∧
    ∀ e, c.expr? = some e → ∃ ts f, f.expr = e ∧ (∀ g, Reads .chain ts g ↔ g = f) ∧
      ts.filterMap Token.leaf? = s.leaves ∧
      ∀ labels, t.describe id labels = .ok (Token.texts labels ts)

/-- The text of every condition of a tree that comes about by edits says what it compiles to. -/
theorem describesCompiled_run (factory : OperatorFactory) (edits : List Edit) (id : NodeId)
    (hlive : ((ofFactory factory).run edits).contains id) :
    ((ofFactory factory).run edits).DescribesCompiled id := by
  have hrep := represents_run factory edits
  obtain ⟨n, c, hn, hc, hexpr⟩ := hrep.compile_live (coherent_run factory edits) hlive
  have htold := n.toCondition.told.1
  have hdescribe (labels : Labels) :
      ((ofFactory factory).run edits).describe id labels = .ok (n.toCondition.text labels) := by
    rw [hrep.describe_eq, hn]
    rfl
  refine ⟨n.toCondition, c, ?_, hc, ?_, fun labels => ?_, fun e he => ?_⟩
  · rw [hrep.snapshot_eq, hn]
    rfl
  · rw [hrep.firstLeaf?_eq, Outline.find?_of_node hn, Option.bind_some, hexpr,
      ← Option.not_isSome_iff_eq_none, ← Option.not_isSome_iff_eq_none, n.isSome_firstLeaf?,
      Condition.isSome_expr?]
  · rw [hdescribe, Except.ok.injEq, htold.eq_empty_iff, hexpr]
  · rw [hexpr] at he
    rw [he] at htold
    obtain ⟨ts, f, hreads, hf, hleaves, htext⟩ := htold
    refine ⟨ts, f, hf, fun g => ⟨fun hg => hreads.unique hg, ?_⟩, hleaves, fun labels => ?_⟩
    · rintro rfl
      exact hreads
    · exact (hdescribe labels).trans (congrArg Except.ok (htext labels))

/-- A block that is an only child needs no parentheses besides those of the block in it, and blocks
without leaves do not show. -/
theorem describesCompiled_onlyChild :
    let leaf (logical : Logical) (value : Bool) : Condition :=
      .leaf logical ⟨⟨"active", .bool, false, "User", 0⟩, .comparison .equal, .bool value⟩
    let inner : Condition := .block .and [leaf .and true, leaf .or false, .block .and []]
    let t := (ofFactory .standard).run [.add ⟨0, 0⟩ (.block .and []),
      .add ⟨0, 0⟩ (leaf .or true), .add ⟨0, 0⟩ (.block .or [inner])]
    t.contains ⟨0, 0⟩ ∧
      t.describe ⟨0, 0⟩ .literal =
        .ok "active == true OR (active == true OR active == false)" ∧
      t.DescribesCompiled ⟨0, 0⟩ :=
  ⟨by decide, by decide, describesCompiled_run _ _ _ (by decide)⟩

end Tree

end EntityQuery
