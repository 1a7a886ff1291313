import CatalogChain.Product.Basic
import CatalogChain.Sha256
import CatalogChain.Text.Percent

/-!
# Fingerprints

The fingerprint of a product is the SHA-256 digest of its canonical bytes
(`Product.canonicalBytes`).  In them every text and every list is preceded by its length in eight
bytes, every integer takes eight bytes, attributes come in the order of their keys, and amounts
are written at their least scale. So nothing can move from one field to the next unnoticed, and
the two instants and the recorded fingerprint do not count.
-/

namespace CatalogChain

namespace Canonical

/-- A length in eight bytes, most significant first. -/
def length (n : Nat) : List UInt8 := Sha256.bytes64 n

/-- A text behind its length in bytes. -/
def text (s : String) : List UInt8 := length (Text.utf8 s).length ++ Text.utf8 s

/-- An integer in the eight bytes of its two's complement. -/
def integer (n : Int) : List UInt8 := Sha256.bytes64 (n % (twoTo 64 : Int)).toNat

/-- A list behind its length. -/
def list {α : Type} (encode : α → List UInt8) (as : List α) : List UInt8 :=
  length as.length ++ as.flatMap encode

/-- A price: its currency and its amount at the least scale. -/
def price (p : Price) : List UInt8 := text p.currency ++ text p.amount.normalize.text

/-- An attribute: its name and its value. -/
def feature (a : String × String) : List UInt8 := text a.1 ++ text a.2

/-- A stock entry. -/
def stock (s : Stock) : List UInt8 := text s.location ++ integer s.quantity

/-- A variant with its attributes and its stock. -/
def variant (v : Variant) : List UInt8 :=
  text v.id ++ text v.sku ++ list feature v.attributes.entries ++ list stock v.stock

/-- A listing. -/
def listing (l : Listing) : List UInt8 :=
  text l.market ++ text l.title ++ text l.description ++ text l.keywords

end Canonical

namespace Product

open Canonical in
/-- **The canonical bytes** of a product: all that its fingerprint covers. -/
def canonicalBytes (p : Product) : List UInt8 :=
  text p.id ++ text p.content.sku ++ text p.content.title ++ text p.content.description ++
    list price p.content.prices ++ list variant p.content.variants ++
    list listing p.content.listings ++ integer p.version

/-- **The fingerprint** that belongs to a product. -/
def computeFingerprint (p : Product) : String := Sha256.hex p.canonicalBytes

/-- Whether the recorded fingerprint is the one that belongs to the product. -/
def hasValidFingerprint (p : Product) : Bool := p.fingerprint = p.computeFingerprint

/-- The product with the fingerprint that belongs to it. -/
def sealed (p : Product) : Product := { p with fingerprint := p.computeFingerprint }

/-- **The next version** of a product, sealed. -/
def bump (p : Product) : Product := { p with version := p.version + 1 }.sealed

/-- **Version 1** of a new product. -/
def ofContent (id : String) (content : Content) (now : Instant) : Product :=
  sealed { id, content, createdAt := now, updatedAt := now, version := 1, fingerprint := "" }

theorem hasValidFingerprint_sealed (p : Product) : p.sealed.hasValidFingerprint = true := by
  simp only [hasValidFingerprint, decide_eq_true_eq]
  rfl

end Product

end CatalogChain
