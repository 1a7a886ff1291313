import CatalogChain.Instant.Basic
import CatalogChain.Uuid

/-!
# Supplies

What a service takes from its surroundings: tokens from which the ids of new products are made,
identifiers for events and requests, and readings of the clock on the wall.  A supply gives the
n-th of each; a service counts how many it has drawn.
-/

namespace CatalogChain

/-- **A supply** of tokens, identifiers and readings, each by number. -/
structure Supply where
  token : Nat → String
  uuid : Nat → Uuid
  reading : Nat → Instant

/-- The id of a new product, made from a token. -/
def Supply.productId (σ : Supply) (n : Nat) : String := "prod_" ++ σ.token n

/-- How many of each have been drawn. -/
structure Draws where
  products : Nat := 0
  uuids : Nat := 0
  readings : Nat := 0
deriving DecidableEq, Repr, Inhabited

end CatalogChain
