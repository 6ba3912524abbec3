import Mathlib.Algebra.BigOperators.Group.List.Basic
import EntityQuery.Proofs.Query.Answers

/-!
# Failures of the source in the tallies

A source may fail whenever it is asked, and its failure is then the answer of the query. The tallies
count every such answer once, except those to calls for a page whose matches the source has counted
before it fails to fetch them: what a page takes after the count is not tallied.

* `Request`, `Inquiry` — calls that ask a query, and a call in the state in which it is made.
* `Run.Tallied` — the failure of a run is counted, unless it comes after a count.
* `Query.inquiries` — calls one after the other, of which each finds the source in another state.
* `Inquiry.fails`, `Inquiry.unfetched` — answers that are failures of the source, and those of them
  that come after a count.
* `Query.errors_inquiries` — what calls add to the tallies.
-/

namespace EntityQuery

/-- A call that asks a query for an answer. -/
inductive Request (m : EntityModel) where
  | execute (limit offset : Option Nat)
  | executeEntities (limit offset : Option Nat)
  | executeAs (view : m.Ty) (limit offset : Option Nat)
  | page (size page : Nat)
  | pageEntities (size page : Nat)
  | pageAs (view : m.Ty) (size page : Nat)
  | firstPage

variable {m : EntityModel} {α β : Type}

/-- Whether a page is asked for. -/
def Request.isPage : Request m → Bool
  | .execute .. | .executeEntities .. | .executeAs .. => false
  | .page .. | .pageEntities .. | .pageAs .. | .firstPage => true

/-! ### Runs -/

namespace Run

/-- Whether the answer is a failure of the source. -/
def failsInSource (r : Run m α) : Bool :=
  match r.answer with
  | .error (.source _) => true
  | _ => false

/-- A run counts a failure of the source once, unless it comes after a count, and nothing else. -/
def Tallied (r : Run m α) (afterCount : Bool) : Prop :=
  r.tallies.errors = if r.failsInSource && !afterCount then 1 else 0

theorem failsInSource_map (f : α → β) (r : Run m α) :
    (r.map f).failsInSource = r.failsInSource := by
  obtain ⟨answer, query, tallies⟩ := r
  cases answer with
  | error e => cases e <;> rfl
  | ok a => rfl

theorem Tallied.map {r : Run m α} {afterCount : Bool} (h : r.Tallied afterCount) (f : α → β) :
    (r.map f).Tallied afterCount := by
  rw [Tallied, failsInSource_map]
  exact h

end Run

namespace Query

/-- Whether the source counts the matches of a query. -/
def counted (q : Query m) : Bool :=
  match q.compile with
  | .error _ => false
  | .ok c => (q.source.count c.expr?).isOk

/-- The outcome of a call, without the answer. -/
def ask (q : Query m) : Request m → Run m Unit
  | .execute limit offset => (q.execute limit offset).map fun _ => ()
  | .executeEntities limit offset => (q.executeEntities limit offset).map fun _ => ()
  | .executeAs view limit offset => (q.executeAs view limit offset).map fun _ => ()
  | .page size page => (q.page size page).map fun _ => ()
  | .pageEntities size page => (q.pageEntities size page).map fun _ => ()
  | .pageAs view size page => (q.pageAs view size page).map fun _ => ()
  | .firstPage => q.firstPage.map fun _ => ()

theorem tallied_fetch (q : Query m) (compilations : Nat) (request : FetchRequest) :
    (q.fetch { compilations } request).Tallied false := by
  rw [fetch, Run.Tallied]
  cases q.source.fetch request <;> rfl

theorem tallied_execute (q : Query m) (limit offset : Option Nat) :
    (q.execute limit offset).Tallied false := by
  rw [execute]
  split
  · rfl
  · split
    · rfl
    · exact tallied_fetch ..

theorem tallied_executeAs (q : Query m) (view : m.Ty) (limit offset : Option Nat) :
    (q.executeAs view limit offset).Tallied false := by
  rw [executeAs]
  split
  · rfl
  · split
    · rfl
    · exact (tallied_fetch ..).map _

theorem source_compile {q : Query m} {c : Compiled (Query m)} (h : q.compile = .ok c) :
    c.result.source = q.source := by
  rw [compile] at h
  cases hroot : q.conditions.compile q.root with
  | error e =>
    rw [hroot] at h
    cases h
  | ok d =>
    rw [hroot] at h
    cases h
    rfl

/-- Of a page, the count alone is tallied. -/
theorem tallied_paged (q : Query m) (projection? : Except PathError Projection)
    (includes : Projection → List String) (size page : Nat) (ofRecord : Record → α) :
    (q.paged projection? includes size page ofRecord).Tallied q.counted := by
  unfold paged
  split
  · rfl
  · split
    · rfl
    · split
      · rfl
      · rename_i filter after compilations hcompile
        have hcounted : q.counted = (after.source.count filter).isOk := by
          rw [counted, hcompile, source_compile hcompile]
        rw [hcounted]
        dsimp only
        split
        · rename_i e hcount
          rw [hcount]
          rfl
        · rename_i total hcount
          rw [hcount, Run.Tallied]
          simp only [Except.isOk, Except.toBool, Bool.not_true, Bool.and_false]
          rfl

/-- A failure is counted, except that of a page after the count. -/
theorem tallied_ask (q : Query m) (request : Request m) :
    (q.ask request).Tallied (request.isPage && q.counted) := by
  cases request with
  | execute limit offset => exact (q.tallied_execute limit offset).map _
  | executeEntities limit offset => exact ((q.tallied_execute limit offset).map _).map _
  | executeAs view limit offset => exact (q.tallied_executeAs view limit offset).map _
  | page size page => exact (q.tallied_paged ..).map _
  | pageEntities size page => exact (q.tallied_paged ..).map _
  | pageAs view size page => exact (q.tallied_paged ..).map _
  | firstPage => exact (q.tallied_paged ..).map _

end Query

/-! ### Calls one after the other -/

/-- A call, and the query in the state in which it is made. -/
structure Inquiry (m : EntityModel) where
  query : Query m
  request : Request m

namespace Inquiry

/-- The outcome of the call. -/
def run (i : Inquiry m) : Run m Unit := i.query.ask i.request

/-- Whether the answer is a failure of the source. -/
def fails (i : Inquiry m) : Bool := i.run.failsInSource

/-- Whether the source counts the matches for a page, and then fails. -/
def unfetched (i : Inquiry m) : Bool := i.fails && (i.request.isPage && i.query.counted)

/-- The failures that a call adds to the tallies. -/
def errors (i : Inquiry m) : Nat := i.run.tallies.errors

theorem errors_eq (i : Inquiry m) :
    i.errors = if i.fails && !i.unfetched then 1 else 0 := by
  have htallied : i.errors = if i.fails && !(i.request.isPage && i.query.counted) then 1 else 0 :=
    i.query.tallied_ask i.request
  rw [htallied, unfetched]
  cases i.fails <;> rfl

/-- A failure is counted, or it is that of a page which is not fetched. -/
theorem errors_add_unfetched (i : Inquiry m) :
    i.errors + (if i.unfetched then 1 else 0) = if i.fails then 1 else 0 := by
  rw [i.errors_eq, unfetched]
  cases i.fails <;> cases i.request.isPage && i.query.counted <;> rfl

end Inquiry

namespace Query

/-- Calls one after the other. Each of them finds the source in another state, and the query as the
call before it has left it. -/
def inquiries (q : Query m) : List (Source × Request m) → List (Inquiry m)
  | [] => []
  | (source, request) :: calls =>
    let i : Inquiry m := ⟨{ q with source }, request⟩
    i :: i.run.query.inquiries calls

/-- The failures that calls add to the tallies and their pages that are not fetched are all their
failures. -/
theorem sum_errors_add_countP (is : List (Inquiry m)) :
    (is.map (·.errors)).sum + is.countP (·.unfetched) = is.countP (·.fails) := by
  induction is with
  | nil => rfl
  | cons i is ih =>
    have hone := i.errors_add_unfetched
    rw [List.map_cons, List.sum_cons, List.countP_cons, List.countP_cons]
    omega

/-- Whatever the source does, a call adds one failure to the tallies if its answer is a failure of
the source, and none otherwise; but nothing is added for a page that the source fails to fetch after
it has counted the matches. So of any calls the tallies count all failures exactly if no page goes
unfetched after its count. -/
theorem errors_inquiries (q : Query m) (calls : List (Source × Request m)) :
    let is := q.inquiries calls
    (∀ i ∈ is, i.errors = if i.fails && !i.unfetched then 1 else 0) ∧
      (is.map (·.errors)).sum + is.countP (·.unfetched) = is.countP (·.fails) ∧
      ((∀ i ∈ is, i.errors = if i.fails then 1 else 0) ↔ ∀ i ∈ is, i.unfetched = false) := by
  intro is
  refine ⟨fun i _ => i.errors_eq, sum_errors_add_countP is, ?_⟩
  refine forall₂_congr fun i _ => ?_
  have hone := i.errors_add_unfetched
  cases hunfetched : i.unfetched with
  | false =>
    rw [hunfetched, if_neg Bool.false_ne_true, Nat.add_zero] at hone
    exact iff_of_true hone rfl
  | true =>
    rw [hunfetched, if_pos rfl] at hone
    exact iff_of_false (by omega) Bool.noConfusion

/-- A source counts three people and cannot be fetched from. The failure of their first page is not
counted. -/
theorem not_errors_of_unfetched :
    ¬ ∀ (q : Query addressBook) (calls : List (Source × Request addressBook)),
      ∀ i ∈ q.inquiries calls, i.errors = if i.fails then 1 else 0 := by
  intro h
  let source : Source := .offline (some 3) (.unavailable "closed")
  let q : Query addressBook :=
    ⟨(0 : Fin 2), source, [], [], .ofFactory .standard, .literal, 20⟩
  have hpage := h q [(source, .page 10 0)] ⟨q, .page 10 0⟩ List.mem_cons_self
  exact absurd hpage (by decide)

end Query

end EntityQuery
