import CatalogChain.Product.Basic

/-!
# Bounds of the machine

Contents are built of unbounded integers, texts and lists.  What a machine of 64 bits can hold of
them is a matter of the theory: integers between the bounds of 64 bits (`IsInt64`), and texts and
lists whose length is a number of 64 bits (`IsLength`).

* `Content.InRange`: the quantities of the stock are integers of 64 bits;
* `Product.Countable`: in addition all lengths in a product can be counted.

Both can be decided, and `Product.sample` is within them.
-/

namespace CatalogChain

/-- **An integer of 64 bits.** -/
def IsInt64 (n : Int) : Prop := -(twoTo 63 : Int) ≤ n ∧ n < twoTo 63

/-- **A length of 64 bits.** -/
def IsLength (n : Nat) : Prop := n < twoTo 64

/-- A text whose bytes can be counted. -/
def IsShort (s : String) : Prop := IsLength s.utf8ByteSize

instance (n : Int) : Decidable (IsInt64 n) := inferInstanceAs (Decidable (_ ∧ _))

instance (n : Nat) : Decidable (IsLength n) := inferInstanceAs (Decidable (_ < _))

instance (s : String) : Decidable (IsShort s) := inferInstanceAs (Decidable (IsLength _))

/-! ## Quantities -/

def Stock.InRange (s : Stock) : Prop := IsInt64 s.quantity

def Variant.InRange (v : Variant) : Prop := ∀ s ∈ v.stock, s.InRange

/-- **Content with quantities of 64 bits.** -/
def Content.InRange (c : Content) : Prop := ∀ v ∈ c.variants, v.InRange

instance (s : Stock) : Decidable s.InRange := inferInstanceAs (Decidable (IsInt64 _))

instance (v : Variant) : Decidable v.InRange := inferInstanceAs (Decidable (∀ s ∈ _, _))

instance (c : Content) : Decidable c.InRange := inferInstanceAs (Decidable (∀ v ∈ _, _))

/-! ## Lengths -/

/-- A list whose entries can be counted and are all within bounds. -/
structure AllCountable {α : Type} (entry : α → Prop) (as : List α) : Prop where
  length : IsLength as.length
  entries : ∀ a ∈ as, entry a

instance {α : Type} {entry : α → Prop} [DecidablePred entry] (as : List α) :
    Decidable (AllCountable entry as) :=
  decidable_of_iff (IsLength as.length ∧ ∀ a ∈ as, entry a)
    ⟨fun h => ⟨h.1, h.2⟩, fun h => ⟨h.1, h.2⟩⟩

def Price.Countable (p : Price) : Prop := IsShort p.currency

instance (p : Price) : Decidable p.Countable := inferInstanceAs (Decidable (IsShort _))

def Stock.Countable (s : Stock) : Prop := IsShort s.location ∧ s.InRange

instance (s : Stock) : Decidable s.Countable := inferInstanceAs (Decidable (_ ∧ _))

structure Variant.Countable (v : Variant) : Prop where
  id : IsShort v.id
  sku : IsShort v.sku
  attributes : AllCountable (fun a => IsShort a.1 ∧ IsShort a.2) v.attributes.entries
  stock : AllCountable Stock.Countable v.stock

instance (v : Variant) : Decidable v.Countable :=
  decidable_of_iff (IsShort v.id ∧ IsShort v.sku ∧
      AllCountable (fun a => IsShort a.1 ∧ IsShort a.2) v.attributes.entries ∧
      AllCountable Stock.Countable v.stock)
    ⟨fun ⟨h1, h2, h3, h4⟩ => ⟨h1, h2, h3, h4⟩, fun ⟨h1, h2, h3, h4⟩ => ⟨h1, h2, h3, h4⟩⟩

structure Listing.Countable (l : Listing) : Prop where
  market : IsShort l.market
  title : IsShort l.title
  description : IsShort l.description
  keywords : IsShort l.keywords

instance (l : Listing) : Decidable l.Countable :=
  decidable_of_iff (IsShort l.market ∧ IsShort l.title ∧ IsShort l.description ∧
      IsShort l.keywords)
    ⟨fun ⟨h1, h2, h3, h4⟩ => ⟨h1, h2, h3, h4⟩, fun ⟨h1, h2, h3, h4⟩ => ⟨h1, h2, h3, h4⟩⟩

structure Content.Countable (c : Content) : Prop where
  sku : IsShort c.sku
  title : IsShort c.title
  description : IsShort c.description
  prices : AllCountable Price.Countable c.prices
  variants : AllCountable Variant.Countable c.variants
  listings : AllCountable Listing.Countable c.listings

instance (c : Content) : Decidable c.Countable :=
  decidable_of_iff (IsShort c.sku ∧ IsShort c.title ∧ IsShort c.description ∧
      AllCountable Price.Countable c.prices ∧ AllCountable Variant.Countable c.variants ∧
      AllCountable Listing.Countable c.listings)
    ⟨fun ⟨h1, h2, h3, h4, h5, h6⟩ => ⟨h1, h2, h3, h4, h5, h6⟩,
      fun ⟨h1, h2, h3, h4, h5, h6⟩ => ⟨h1, h2, h3, h4, h5, h6⟩⟩

/-- **A product within all bounds**: integers of 64 bits, and lengths that can be counted. -/
structure Product.Countable (p : Product) : Prop where
  id : IsShort p.id
  version : IsInt64 p.version
  content : p.content.Countable

instance (p : Product) : Decidable p.Countable :=
  decidable_of_iff (IsShort p.id ∧ IsInt64 p.version ∧ p.content.Countable)
    ⟨fun ⟨h1, h2, h3⟩ => ⟨h1, h2, h3⟩, fun ⟨h1, h2, h3⟩ => ⟨h1, h2, h3⟩⟩

/-- A product with one price and one variant in stock. -/
def Product.sample (magnitude scale : Nat) (location : String) : Product where
  id := "prod_1"
  content :=
    { sku := "SKU-1", title := "Sweater", description := "",
      prices := [⟨"SEK", (Decimal.ofDigits? false magnitude scale).getD .zero⟩],
      variants := [⟨"var_1", "SKU-1-XL", SortedTable.ofList [("size", "XL")], [⟨location, 4⟩]⟩],
      listings := [⟨"SE", "Tröja", "", ""⟩] }
  createdAt := Instant.epoch
  updatedAt := Instant.epoch
  version := 1
  fingerprint := ""

end CatalogChain
