import CatalogChain.Decimal.Reader
import CatalogChain.Instant.Printer
import CatalogChain.Instant.Reader
import CatalogChain.Json.Record
import CatalogChain.Product.Basic

/-!
# Products in JSON

Each type has an encoder (`Price.toJson`, …) and a reader (`Price.read`, …), which accepts what
the encoder writes and more: fields in any order or by place, defaults for fields that may be
missing, and amounts as strings or numbers.  Content is not nested in a product: its fields stand
between the product's own.
-/

namespace CatalogChain

/-! ## Scalars -/

/-- An amount as a string. -/
def Decimal.toJson (d : Decimal) : Json := .string d.text

/-- **An amount** from a string, an integer or a floating-point number, the last in its shortest
notation. -/
def Decimal.read : Outline → Reading Decimal
  | .string (some s) => (Decimal.read? s).elim (.error .mistyped) .ok
  | .number (some (.integer n)) => (Decimal.ofInt? n).elim (.error .mistyped) .ok
  | .number (some (.float x)) =>
    (Decimal.readPlain? x.plainText.toList).elim (.error .mistyped) .ok
  | o => .error o.flaw

/-- An instant as a string. -/
def Instant.toJson (t : Instant) : Json := .string t.text

/-- An instant from a string. -/
def Instant.read : Outline → Reading Instant
  | .string (some s) => (Instant.read? s).elim (.error .mistyped) .ok
  | o => .error o.flaw

/-! ## Parts of the content -/

/-- The fields of a price in their declared order. -/
def Price.names : List String := ["currency", "amount"]

/-- A price as an object. -/
def Price.toJson (p : Price) : Json :=
  .object [("currency", .string p.currency), ("amount", p.amount.toJson)]

/-- A price from its fields. -/
def Price.read : Outline → Reading Price :=
  readRecord Price.names <|
    Price.mk <$> field "currency" Outline.readText <*> field "amount" Decimal.read

/-- The fields of a stock entry in their declared order. -/
def Stock.names : List String := ["location_id", "quantity"]

/-- A stock entry as an object. -/
def Stock.toJson (s : Stock) : Json :=
  .object [("location_id", .string s.location), ("quantity", .int s.quantity)]

/-- A stock entry from its fields. -/
def Stock.read : Outline → Reading Stock :=
  readRecord Stock.names <|
    Stock.mk <$> field "location_id" Outline.readText <*> field "quantity" Outline.readInt64

/-- The fields of a variant in their declared order. -/
def Variant.names : List String := ["id", "sku", "attributes", "stock"]

/-- A variant as an object. -/
def Variant.toJson (v : Variant) : Json :=
  .object [
    ("id", .string v.id),
    ("sku", .string v.sku),
    ("attributes", .object (v.attributes.entries.map fun a => (a.1, .string a.2))),
    ("stock", .list Stock.toJson v.stock)]

/-- A variant from its fields; without stock unless that is given. -/
def Variant.read : Outline → Reading Variant :=
  readRecord Variant.names <|
    Variant.mk <$> field "id" Outline.readText <*> field "sku" Outline.readText
      <*> field "attributes" (Outline.readTable Outline.readText)
      <*> fieldOr "stock" [] (Outline.readList Stock.read)

/-- The fields of a listing in their declared order. -/
def Listing.names : List String := ["market", "title", "description", "keywords"]

/-- A listing as an object. -/
def Listing.toJson (l : Listing) : Json :=
  .object [
    ("market", .string l.market),
    ("title", .string l.title),
    ("description", .string l.description),
    ("keywords", .string l.keywords)]

/-- A listing from its fields; description and keywords are empty unless given. -/
def Listing.read : Outline → Reading Listing :=
  readRecord Listing.names <|
    Listing.mk <$> field "market" Outline.readText <*> field "title" Outline.readText
      <*> fieldOr "description" "" Outline.readText <*> fieldOr "keywords" "" Outline.readText

/-! ## Content and product -/

namespace Content

/-- The fields of content in their declared order. -/
def names : List String := ["sku", "base_title", "description", "prices", "variants", "metadata"]

/-- The members of an object that holds content. -/
def members (c : Content) : List (String × Json) :=
  [("sku", .string c.sku),
    ("base_title", .string c.title),
    ("description", .string c.description),
    ("prices", .list Price.toJson c.prices),
    ("variants", .list Variant.toJson c.variants),
    ("metadata", .list Listing.toJson c.listings)]

/-- Content as an object. -/
def toJson (c : Content) : Json := .object c.members

/-- The fields of content; the description is empty and variants are none unless given. -/
def fields : Fields Content :=
  Content.mk <$> field "sku" Outline.readText <*> field "base_title" Outline.readText
    <*> fieldOr "description" "" Outline.readText
    <*> field "prices" (Outline.readList Price.read)
    <*> fieldOr "variants" [] (Outline.readList Variant.read)
    <*> field "metadata" (Outline.readList Listing.read)

/-- Content from its fields. -/
def read : Outline → Reading Content := readRecord names fields

end Content

namespace Product

/-- The fields of a product in their declared order. -/
def names : List String :=
  "id" :: Content.names ++ ["created_at", "updated_at", "version", "last_hash"]

/-- A product as an object. -/
def toJson (p : Product) : Json :=
  .object <| ("id", .string p.id) :: p.content.members ++ [
    ("created_at", p.createdAt.toJson),
    ("updated_at", p.updatedAt.toJson),
    ("version", .int p.version),
    ("last_hash", .string p.fingerprint)]

/-- **A product** from its fields; the instants are the epoch and the fingerprint is empty unless
given. -/
def read : Outline → Reading Product :=
  readRecord names <|
    Product.mk <$> field "id" Outline.readText <*> Content.fields
      <*> fieldOr "created_at" Instant.epoch Instant.read
      <*> fieldOr "updated_at" Instant.epoch Instant.read
      <*> field "version" Outline.readInt64
      <*> fieldOr "last_hash" "" Outline.readText

end Product

end CatalogChain
