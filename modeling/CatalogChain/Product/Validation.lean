import CatalogChain.Product.Basic
import CatalogChain.Text.Blank
import CatalogChain.Text.Integer

/-!
# Validation

A product is valid if its texts that matter are not blank, its numbers are not negative and its
lists are not empty where they must not be.  The checks run in a fixed order, all prices before all
variants before the listings, and stop at the first violation, which names the field by its path.
-/

namespace CatalogChain

/-- **A rule** that a field can violate. -/
inductive Rule where
  | required
  | currencyLength
  | notNegative
  | hasAttribute
  | hasPrice
  | hasListing
  | versionPositive
deriving DecidableEq, Repr

/-- What a rule demands, in words. -/
def Rule.text : Rule → String
  | .required => "is required"
  | .currencyLength => "must be 3 characters"
  | .notNegative => "must not be negative"
  | .hasAttribute => "at least one attribute is required"
  | .hasPrice => "at least one price is required"
  | .hasListing => "at least one market entry is required"
  | .versionPositive => "must be at least 1"

/-- **A violation**: the path of a field and the rule that it breaks. -/
structure Violation where
  field : String
  rule : Rule
deriving DecidableEq, Repr

/-- The outcome of a check. -/
abbrev Check := Except Violation Unit

namespace Check

/-- Fails at a field unless a condition holds. -/
def demand (condition : Bool) (field : String) (rule : Rule) : Check :=
  if condition then .ok () else .error ⟨field, rule⟩

/-- A text must hold a character that is not blank. -/
def notBlank (s : String) (field : String) : Check := demand (!Text.allBlank s) field .required

/-- The path of an entry of a list. -/
def entryPath (list : String) (i : Nat) : String := list ++ "[" ++ Text.ofNat i ++ "]"

/-- Checks the entries of a list in order, counted from `i`. -/
def each {α : Type} (check : α → String → Check) (list : String) : (i : Nat) → List α → Check
  | _, [] => .ok ()
  | i, a :: as =>
    match check a (entryPath list i) with
    | .error v => .error v
    | .ok () => each check list (i + 1) as

/-- The first of two checks that fails. -/
def andThen (first second : Check) : Check :=
  match first with
  | .error v => .error v
  | .ok () => second

@[simp] theorem andThen_ok_iff {first second : Check} :
    andThen first second = .ok () ↔ first = .ok () ∧ second = .ok () := by
  rcases first with v | ⟨⟩ <;> simp [andThen]

@[simp] theorem demand_ok_iff {condition : Bool} {field : String} {rule : Rule} :
    demand condition field rule = .ok () ↔ condition = true := by
  unfold demand; split <;> simp_all

theorem each_ok_iff {α : Type} {check : α → String → Check} {list : String} {i : Nat}
    {as : List α} :
    each check list i as = .ok () ↔
      ∀ j, (h : j < as.length) → check as[j] (entryPath list (i + j)) = .ok () := by
  induction as generalizing i with
  | nil => simp [each]
  | cons a as ih =>
    have hcons : each check list i (a :: as) =
        andThen (check a (entryPath list i)) (each check list (i + 1) as) := by
      rw [each, andThen.eq_def]
    rw [hcons, andThen_ok_iff, ih]
    constructor
    · rintro ⟨h0, hs⟩ (_ | j) h
      · exact h0
      · have := hs j (Nat.lt_of_succ_lt_succ h)
        simpa [Nat.add_assoc, Nat.add_comm 1] using this
    · intro h
      refine ⟨h 0 (by simp), fun j hj => ?_⟩
      have := h (j + 1) (by simpa using hj)
      simpa [Nat.add_assoc, Nat.add_comm 1] using this

end Check

open Check

/-- The number of characters in a currency code. -/
def currencyLength : Nat := 3

/-- **A price** has a currency code of three characters and an amount that is not negative. -/
def Price.validate (p : Price) (path : String) : Check :=
  andThen (demand (p.currency.length = currencyLength) (path ++ ".currency") .currencyLength)
    (demand (!p.amount.isNegative) (path ++ ".amount") .notNegative)

/-- **A stock entry** has a location and a quantity that is not negative. -/
def Stock.validate (s : Stock) (path : String) : Check :=
  andThen (notBlank s.location (path ++ ".location_id"))
    (demand (0 ≤ s.quantity) (path ++ ".quantity") .notNegative)

/-- **A variant** has an id, a stock-keeping unit, an attribute and valid stock entries. -/
def Variant.validate (v : Variant) (path : String) : Check :=
  andThen (notBlank v.id (path ++ ".id")) <|
  andThen (notBlank v.sku (path ++ ".sku")) <|
  andThen (demand (!v.attributes.entries.isEmpty) (path ++ ".attributes") .hasAttribute)
    (each Stock.validate (path ++ ".stock") 0 v.stock)

/-- **A listing** has a market and a title. -/
def Listing.validate (l : Listing) (path : String) : Check :=
  andThen (notBlank l.market (path ++ ".market")) (notBlank l.title (path ++ ".title"))

/-- **Content** has its texts, a price, a listing, and valid entries in all its lists. -/
def Content.validate (c : Content) : Check :=
  andThen (notBlank c.sku "sku") <|
  andThen (notBlank c.title "base_title") <|
  andThen (demand (!c.prices.isEmpty) "prices" .hasPrice) <|
  andThen (each Price.validate "prices" 0 c.prices) <|
  andThen (each Variant.validate "variants" 0 c.variants) <|
  andThen (demand (!c.listings.isEmpty) "metadata" .hasListing)
    (each Listing.validate "metadata" 0 c.listings)

/-- **A product** has an id, a version of at least one, and valid content. -/
def Product.validate (p : Product) : Check :=
  andThen (notBlank p.id "id") <|
  andThen (demand (1 ≤ p.version) "version" .versionPositive) p.content.validate

end CatalogChain
