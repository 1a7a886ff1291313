import CatalogChain.Event.Basic

/-!
# The live table

The live table holds the current value of every product that is not deleted.  A listing shows it
page by page, oldest product first and, of products created at one instant, in the order of their
ids.
-/

namespace CatalogChain

/-- **The live table**: products under their ids. -/
abbrev LiveTable := Table Product

/-- **One page** of a listing, with its number and size as used and the totals. -/
structure Page where
  data : List Product
  page : Nat
  pageSize : Nat
  totalItems : Nat
  totalPages : Nat

namespace LiveTable

/-- Does to the table what an event says. -/
def apply (live : LiveTable) (e : Event) : LiveTable :=
  match e.payload with
  | .created p | .updated p _ _ => live.put p.id p
  | .deleted _ _ => live.erase e.entityId

/-! ## Listing -/

/-- The size of a page for which none is given. -/
def defaultPageSize : Nat := 10

/-- The size that a page cannot exceed. -/
def maxPageSize : Nat := 100

/-- The size of a page that is used where one is asked for. -/
def effectiveSize (size : Nat) : Nat := if size = 0 then defaultPageSize else min size maxPageSize

/-- Whether a product comes no later than another in a listing. -/
def listedBefore (a b : Product) : Bool :=
  a.createdAt < b.createdAt || (a.createdAt = b.createdAt && a.id ≤ b.id)

/-- All products in the order of a listing. -/
def listing (live : LiveTable) : List Product := live.values.mergeSort listedBefore

/-- **A page of the listing.**  Pages count from 1, and page 0 is page 1. -/
def page (live : LiveTable) (page size : Nat) : Page :=
  let page := max page 1
  let size := effectiveSize size
  { data := (live.listing.drop ((page - 1) * size)).take size
    page
    pageSize := size
    totalItems := live.size
    totalPages := (live.size + size - 1) / size }

end LiveTable

/-- A page as an object. -/
def Page.toJson (p : Page) (encode : Product → Json) : Json :=
  .object [
    ("data", .list encode p.data),
    ("page", .nat p.page),
    ("page_size", .nat p.pageSize),
    ("total_items", .nat p.totalItems),
    ("total_pages", .nat p.totalPages)]

end CatalogChain
