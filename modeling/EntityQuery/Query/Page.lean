import EntityQuery.Query.Error

/-!
# Pages

A `Page` is a part of the answer of a query. It can turn to the other pages of the same answer.

* `Page.load` — a page by its number, counted from zero.
* `Page.goTo` — another page of the same answer.
-/

namespace EntityQuery

/-- A page, and how to fetch others: by size and offset. -/
structure Page (α : Type) where
  items : List α
  totalItems : Nat
  pageSize : Nat
  current : Nat
  fetch : Nat → Nat → Except SourceError (List α)

namespace Page

variable {α β : Type}

/-- The number of pages of a size that hold a number of items. -/
def pagesFor (totalItems pageSize : Nat) : Nat := (totalItems + pageSize - 1) / pageSize

/-- The number of pages. -/
def totalPages (p : Page α) : Nat := pagesFor p.totalItems p.pageSize

/-- Load a page. The first page of nothing is empty; other pages beyond the end are refused. -/
def load (fetch : Nat → Nat → Except SourceError (List α)) (totalItems pageSize page : Nat) :
    Except QueryError (Page α) :=
  if pageSize = 0 then .error .invalidPageSize
  else if pagesFor totalItems pageSize ≤ page ∧ ¬(page = 0 ∧ totalItems = 0) then
    .error (.pageOutOfRange page (pagesFor totalItems pageSize))
  else if totalItems = 0 then .ok ⟨[], totalItems, pageSize, page, fetch⟩
  else
    match fetch pageSize (page * pageSize) with
    | .error e => .error (.source e)
    | .ok items => .ok ⟨items, totalItems, pageSize, page, fetch⟩

/-- Another page of the same answer. -/
def goTo (p : Page α) (page : Nat) : Except QueryError (Page α) :=
  if p.totalPages ≤ page then .error (.pageOutOfRange page p.totalPages)
  else load p.fetch p.totalItems p.pageSize page

/-- Whether there is a page before. -/
def hasPrevious (p : Page α) : Bool := 0 < p.current

/-- Whether there is a page after. -/
def hasNext (p : Page α) : Bool := p.current + 1 < p.totalPages

/-- A page of other items, made from these. -/
def map (f : α → β) (p : Page α) : Page β :=
  ⟨p.items.map f, p.totalItems, p.pageSize, p.current,
    fun size offset => (p.fetch size offset).map (List.map f)⟩

/-- Other items do not change the number of pages. -/
@[simp] theorem totalPages_map (f : α → β) (p : Page α) : (p.map f).totalPages = p.totalPages := rfl

end Page

end EntityQuery
