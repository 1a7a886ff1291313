/-!
# Routes

A path leads to one of six resources or to none.  Paths are compared as they are written; only the
id of a product in a path is decoded, and that later.
-/

namespace CatalogChain.Http

/-- **What a path leads to.**  An id is given as it is written in the path. -/
inductive Resource where
  | health
  | products
  | batch
  | product (id : String)
  | history (id : String)
  | events
deriving DecidableEq, Repr

namespace Resource

/-- The parts of a path between slashes. -/
def segments (path : String) : List String := path.splitOn "/"

/-- **The resource of a path.** -/
def ofPath? (path : String) : Option Resource :=
  match segments path with
  | ["", "health"] => some health
  | ["", "api", "v1", "products"] => some products
  | ["", "api", "v1", "events"] => some events
  | ["", "api", "v1", "products", "batch"] => some batch
  | ["", "api", "v1", "products", id] => if id = "" then none else some (product id)
  | ["", "api", "v1", "products", id, "events"] => some (history id)
  | _ => none

/-- Whether requests for the resource have a correlation identifier. -/
def isCorrelated : Resource → Bool
  | health => false
  | _ => true

end Resource

end CatalogChain.Http
