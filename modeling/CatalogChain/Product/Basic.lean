import CatalogChain.Decimal.Basic
import CatalogChain.Instant.Basic
import CatalogChain.Table

/-!
# Products

A product is an identity, its content and the bookkeeping about it.  The content is what a client
writes: texts, prices, variants with their stock, and one listing per market.  The bookkeeping is
the two instants, the version, and the fingerprint of the product at that version.

Contents are compared by meaning (`Content.same`): amounts by value and not by scale.
-/

namespace CatalogChain

/-- **A price** in one currency. -/
structure Price where
  currency : String
  amount : Decimal
deriving DecidableEq, Inhabited

/-- **The stock** at one location. -/
structure Stock where
  location : String
  quantity : Int
deriving DecidableEq, Inhabited

/-- **A variant**: one sellable form of a product. -/
structure Variant where
  id : String
  sku : String
  attributes : SortedTable String
  stock : List Stock
deriving DecidableEq, Inhabited

/-- **A listing**: the texts of a product for one market. -/
structure Listing where
  market : String
  title : String
  description : String
  keywords : String
deriving DecidableEq, Inhabited

/-- **The content** of a product: what a client writes, and all that a new product is made from. -/
structure Content where
  sku : String
  title : String
  description : String
  prices : List Price
  variants : List Variant
  listings : List Listing
deriving DecidableEq, Inhabited

/-- **A product** at one version. -/
structure Product where
  id : String
  content : Content
  createdAt : Instant
  updatedAt : Instant
  version : Int
  fingerprint : String
deriving DecidableEq, Inhabited

/-! ## Comparison -/

/-- Prices are the same in one currency and of one value. -/
def Price.same (a b : Price) : Bool := a.currency = b.currency && a.amount.sameValue b.amount

/-- Lists of prices are the same entry by entry. -/
def samePrices (as bs : List Price) : Bool := as.isEqv bs Price.same

/-- Contents are the same field by field. -/
def Content.same (a b : Content) : Bool :=
  a.sku = b.sku && a.title = b.title && a.description = b.description &&
    samePrices a.prices b.prices && a.variants = b.variants && a.listings = b.listings

/-- Products are the same field by field. -/
def Product.same (a b : Product) : Bool :=
  a.id = b.id && a.content.same b.content && a.createdAt = b.createdAt &&
    a.updatedAt = b.updatedAt && a.version = b.version && a.fingerprint = b.fingerprint

/-! ## Naming -/

/-- The key of the lock on a product. -/
def Product.lockKey (id : String) : String := "product:" ++ id

/-- The kind of thing a product is. -/
def Product.kind : String := "product"

end CatalogChain
