import CatalogChain.Product.Fingerprint
import CatalogChain.Product.Validation
import CatalogChain.Supply

/-!
# What validation accepts and what it reports

A product is valid if it meets a list of conditions (`Product.Valid`), and its check accepts just
the valid ones (`Product.validate_eq_ok_iff_valid`).

Each condition stands at a place: a field, a list, or a field of an entry of a list.  The places of
a product are data of their own (`ProductPlace`), with an order in which they are looked at
(`ProductPlace.position`, compared like words in a dictionary) and with what is reported of them
(`ProductPlace.report`).  A check that fails reports the first of all places that are violated
(`Check.Reports`).  That is so of single conditions, it is kept when checks are made one after the
other (`Check.reportsFrom_andThen`), and when the entries of a list are checked in order
(`Check.reportsAt_each`), so it holds of prices, stock entries, variants and listings, and of
contents and products made of them (`Content.examined`, `Product.examined`).
-/

namespace CatalogChain

/-! ## The first place that is violated -/

/-- **The first of the places that are violated**: the positions of all others come later. -/
def IsFirst {κ : Type} (position : κ → List Nat) (violated : κ → Prop) (k : κ) : Prop :=
  violated k ∧ ∀ k', violated k' → k' = k ∨ List.Lex (· < ·) (position k) (position k')

namespace Check

variable {κ : Type} (position : κ → List Nat) (report : κ → Violation) (violated : κ → Prop)

/-- **A check reports the first place that is violated**, and fails only if there is one. -/
def Reports (check : Check) : Prop :=
  match check with
  | .ok () => ∀ k, ¬ violated k
  | .error v => ∃ k, IsFirst position violated k ∧ v = report k

/-- A check of the places in one section: those whose positions begin with a number. -/
def ReportsAt (n : Nat) (check : Check) : Prop :=
  Reports position report (fun k => violated k ∧ (position k).headD 0 = n) check

/-- A check of the places from a section on. -/
def ReportsFrom (n : Nat) (check : Check) : Prop :=
  Reports position report (fun k => violated k ∧ n ≤ (position k).headD 0) check

variable {position report violated} {n : Nat} {check check' : Check}

theorem Reports.congr {violated' : κ → Prop} (h : Reports position report violated check)
    (heq : ∀ k, violated k ↔ violated' k) : Reports position report violated' check := by
  rwa [← funext fun k => propext (heq k)]

/-- **One condition** that stands at the only place of its section. -/
theorem reportsAt_demand {condition : Bool} {field : String} {rule : Rule} (k : κ)
    (hreport : report k = ⟨field, rule⟩) (hviolated : violated k ↔ condition = false)
    (honly : ∀ k', (position k').headD 0 = n ↔ k' = k) :
    ReportsAt position report violated n (demand condition field rule) := by
  cases condition with
  | true =>
    rintro k' ⟨hk', hn⟩
    rw [(honly k').mp hn] at hk'
    cases hviolated.mp hk'
  | false =>
    refine ⟨k, ⟨⟨hviolated.mpr rfl, (honly k).mpr rfl⟩, fun k' hk' => ?_⟩, hreport.symm⟩
    exact .inl ((honly k').mp hk'.2)

theorem lex_of_headD_lt {as bs : List Nat} (h : as.headD 0 < bs.headD 0) :
    List.Lex (· < ·) as bs := by
  cases bs with
  | nil => exact absurd h (Nat.not_lt_zero _)
  | cons b bs =>
    cases as with
    | nil => exact .nil
    | cons a as => exact .rel h

/-- **Sections are checked one after the other.** -/
theorem reportsFrom_andThen (h : ReportsAt position report violated n check)
    (h' : ReportsFrom position report violated (n + 1) check') :
    ReportsFrom position report violated n (check.andThen check') := by
  rcases check with v | ⟨⟩
  · -- a place of this section comes before all later ones
    obtain ⟨k, ⟨⟨hk, hn⟩, hfirst⟩, rfl⟩ := h
    refine ⟨k, ⟨⟨hk, Nat.le_of_eq hn.symm⟩, fun k' hk' => ?_⟩, rfl⟩
    rcases Nat.lt_or_ge n ((position k').headD 0) with hlt | hge
    · exact .inr (lex_of_headD_lt (by omega))
    · exact hfirst k' ⟨hk'.1, by omega⟩
  · refine Reports.congr h' fun k => ⟨fun hk => ⟨hk.1, Nat.le_of_succ_le hk.2⟩, fun hk => ?_⟩
    refine ⟨hk.1, Nat.lt_of_le_of_ne hk.2 fun hn => h k ⟨hk.1, hn.symm⟩⟩

/-- The last section. -/
theorem reportsFrom_last (h : ReportsAt position report violated n check)
    (hlast : ∀ k, (position k).headD 0 ≤ n) : ReportsFrom position report violated n check :=
  Reports.congr h fun k => ⟨fun hk => ⟨hk.1, Nat.le_of_eq hk.2.symm⟩,
    fun hk => ⟨hk.1, Nat.le_antisymm (hlast k) hk.2⟩⟩

/-- All sections. -/
theorem reports_of_reportsFrom (h : ReportsFrom position report violated 0 check) :
    Reports position report violated check :=
  Reports.congr h fun _ => ⟨And.left, fun hk => ⟨hk, Nat.zero_le _⟩⟩

section Entries
variable {α ε : Type} {entryPosition : ε → List Nat} {entryReport : String → ε → Violation}
  {entryViolated : α → ε → Prop} {entryCheck : α → String → Check} (place : Nat → ε → κ)
  (list : String) (hposition : ∀ i k, position (place i k) = n :: i :: entryPosition k)
  (hreport : ∀ i k, report (place i k) = entryReport (entryPath list i) k)
  (hentry : ∀ a path,
    Reports entryPosition (entryReport path) (entryViolated a) (entryCheck a path))
include hposition hreport hentry

/-- The entries of the rest of a list are checked in order. -/
theorem reports_each (i : Nat) (as : List α) :
    Reports position report
      (fun k => ∃ j e, k = place (i + j) e ∧ ∃ a, as[j]? = some a ∧ entryViolated a e)
      (each entryCheck list i as) := by
  induction as generalizing i with
  | nil =>
    rintro k ⟨j, e, -, a, ha, -⟩
    cases ha
  | cons a as ih =>
    have hfirst := hentry a (entryPath list i)
    have hrest := ih (i + 1)
    unfold each
    rcases hcheck : entryCheck a (entryPath list i) with v | ⟨⟩
    · rw [hcheck] at hfirst
      obtain ⟨e, ⟨he, hall⟩, rfl⟩ := hfirst
      refine ⟨place i e, ⟨⟨0, e, rfl, a, rfl, he⟩, ?_⟩, (hreport i e).symm⟩
      rintro k ⟨j, e', rfl, a', ha', he'⟩
      rw [hposition, hposition]
      cases j with
      | zero =>
        obtain rfl := Option.some.inj ha'
        rcases hall e' he' with rfl | hlt
        · exact .inl rfl
        · exact .inr (.cons (.cons hlt))
      | succ j => exact .inr (.cons (.rel (by omega)))
    · rw [hcheck] at hfirst
      refine Reports.congr hrest fun k => ⟨?_, ?_⟩
      · rintro ⟨j, e, rfl, a', ha', he⟩
        exact ⟨j + 1, e, by rw [Nat.add_right_comm, Nat.add_assoc], a', ha', he⟩
      · rintro ⟨j, e, rfl, a', ha', he⟩
        cases j with
        | zero =>
          obtain rfl := Option.some.inj ha'
          exact absurd he (hfirst e)
        | succ j => exact ⟨j, e, by rw [Nat.add_right_comm, Nat.add_assoc], a', ha', he⟩

/-- **The entries of a list** are a section of their own. -/
theorem reportsAt_each (as : List α)
    (hviolated : ∀ i k, violated (place i k) ↔ ∃ a, as[i]? = some a ∧ entryViolated a k)
    (hsection : ∀ k, (position k).headD 0 = n → ∃ i e, k = place i e) :
    ReportsAt position report violated n (each entryCheck list 0 as) := by
  refine Reports.congr (reports_each place list hposition hreport hentry 0 as) fun k => ⟨?_, ?_⟩
  · rintro ⟨i, e, rfl, ha⟩
    rw [Nat.zero_add]
    exact ⟨(hviolated i e).mpr ha, by rw [hposition]; rfl⟩
  · rintro ⟨hk, hn⟩
    obtain ⟨i, e, rfl⟩ := hsection k hn
    exact ⟨i, e, by rw [Nat.zero_add], (hviolated i e).mp hk⟩

end Entries

end Check

/-! ## Conditions -/

/-- A text holds a character that is not blank. -/
def Text.Visible (s : String) : Prop := ∃ c ∈ s.toList, isBlank c = false

theorem Text.visible_iff {s : String} : Visible s ↔ (!allBlank s) = true := by
  rw [Bool.not_eq_true', allBlank_eq_false_iff, Visible]

theorem Text.not_visible_iff {s : String} : ¬ Visible s ↔ (!allBlank s) = false := by
  rw [visible_iff, Bool.not_eq_true]

structure Price.Valid (p : Price) : Prop where
  currency : p.currency.length = 3
  amount : 0 ≤ p.amount.mantissa

structure Stock.Valid (s : Stock) : Prop where
  location : Text.Visible s.location
  quantity : 0 ≤ s.quantity

structure Variant.Valid (v : Variant) : Prop where
  id : Text.Visible v.id
  sku : Text.Visible v.sku
  attributes : v.attributes.entries ≠ []
  stock : ∀ s ∈ v.stock, s.Valid

structure Listing.Valid (l : Listing) : Prop where
  market : Text.Visible l.market
  title : Text.Visible l.title

/-- **Content that meets all conditions.** -/
structure Content.Valid (c : Content) : Prop where
  sku : Text.Visible c.sku
  title : Text.Visible c.title
  hasPrice : c.prices ≠ []
  prices : ∀ p ∈ c.prices, p.Valid
  variants : ∀ v ∈ c.variants, v.Valid
  hasListing : c.listings ≠ []
  listings : ∀ l ∈ c.listings, l.Valid

/-- **A product that meets all conditions.** -/
structure Product.Valid (p : Product) : Prop where
  id : Text.Visible p.id
  version : 1 ≤ p.version
  content : p.content.Valid

/-! ## Places -/

inductive PricePlace where
  | currency
  | amount

inductive StockPlace where
  | location
  | quantity

inductive VariantPlace where
  | id
  | sku
  | attributes
  | stock (i : Nat) (place : StockPlace)

inductive ListingPlace where
  | market
  | title

/-- **The places of contents.**  Entries of lists are counted from 0. -/
inductive ContentPlace where
  | sku
  | title
  | prices
  | price (i : Nat) (place : PricePlace)
  | variant (i : Nat) (place : VariantPlace)
  | listings
  | listing (i : Nat) (place : ListingPlace)

/-- **The places of products.** -/
inductive ProductPlace where
  | id
  | version
  | content (place : ContentPlace)

namespace PricePlace

def position : PricePlace → List Nat
  | currency => [0]
  | amount => [1]

def report (path : String) : PricePlace → Violation
  | currency => ⟨path ++ ".currency", .currencyLength⟩
  | amount => ⟨path ++ ".amount", .notNegative⟩

def Violated (p : Price) : PricePlace → Prop
  | currency => p.currency.length ≠ 3
  | amount => p.amount.mantissa < 0

end PricePlace

namespace StockPlace

def position : StockPlace → List Nat
  | location => [0]
  | quantity => [1]

def report (path : String) : StockPlace → Violation
  | location => ⟨path ++ ".location_id", .required⟩
  | quantity => ⟨path ++ ".quantity", .notNegative⟩

def Violated (s : Stock) : StockPlace → Prop
  | location => ¬ Text.Visible s.location
  | quantity => s.quantity < 0

end StockPlace

namespace VariantPlace

def position : VariantPlace → List Nat
  | id => [0]
  | sku => [1]
  | attributes => [2]
  | stock i place => 3 :: i :: place.position

def report (path : String) : VariantPlace → Violation
  | id => ⟨path ++ ".id", .required⟩
  | sku => ⟨path ++ ".sku", .required⟩
  | attributes => ⟨path ++ ".attributes", .hasAttribute⟩
  | stock i place => place.report (Check.entryPath (path ++ ".stock") i)

def Violated (v : Variant) : VariantPlace → Prop
  | id => ¬ Text.Visible v.id
  | sku => ¬ Text.Visible v.sku
  | attributes => v.attributes.entries = []
  | stock i place => ∃ s, v.stock[i]? = some s ∧ place.Violated s

end VariantPlace

namespace ListingPlace

def position : ListingPlace → List Nat
  | market => [0]
  | title => [1]

def report (path : String) : ListingPlace → Violation
  | market => ⟨path ++ ".market", .required⟩
  | title => ⟨path ++ ".title", .required⟩

def Violated (l : Listing) : ListingPlace → Prop
  | market => ¬ Text.Visible l.market
  | title => ¬ Text.Visible l.title

end ListingPlace

namespace ContentPlace

/-- **The order of the places**: all prices before all variants before the listings, the entries of
a list in their order, and the places of an entry together. -/
def position : ContentPlace → List Nat
  | sku => [0]
  | title => [1]
  | prices => [2]
  | price i place => 3 :: i :: place.position
  | variant i place => 4 :: i :: place.position
  | listings => [5]
  | listing i place => 6 :: i :: place.position

/-- What is reported of a place: its path, with the numbers of entries in it, and the rule. -/
def report : ContentPlace → Violation
  | sku => ⟨"sku", .required⟩
  | title => ⟨"base_title", .required⟩
  | prices => ⟨"prices", .hasPrice⟩
  | price i place => place.report (Check.entryPath "prices" i)
  | variant i place => place.report (Check.entryPath "variants" i)
  | listings => ⟨"metadata", .hasListing⟩
  | listing i place => place.report (Check.entryPath "metadata" i)

/-- The content does not meet the condition at a place. -/
def Violated (c : Content) : ContentPlace → Prop
  | sku => ¬ Text.Visible c.sku
  | title => ¬ Text.Visible c.title
  | prices => c.prices = []
  | price i place => ∃ p, c.prices[i]? = some p ∧ place.Violated p
  | variant i place => ∃ v, c.variants[i]? = some v ∧ place.Violated v
  | listings => c.listings = []
  | listing i place => ∃ l, c.listings[i]? = some l ∧ place.Violated l

end ContentPlace

namespace ProductPlace

def position : ProductPlace → List Nat
  | id => [0]
  | version => [1]
  | content place => 2 :: place.position

def report : ProductPlace → Violation
  | id => ⟨"id", .required⟩
  | version => ⟨"version", .versionPositive⟩
  | content place => place.report

def Violated (p : Product) : ProductPlace → Prop
  | id => ¬ Text.Visible p.id
  | version => p.version < 1
  | content place => place.Violated p.content

end ProductPlace

/-! ## The checks -/

open Check

theorem Price.reports_validate (p : Price) (path : String) :
    Reports PricePlace.position (PricePlace.report path) (PricePlace.Violated p)
      (p.validate path) := by
  refine reports_of_reportsFrom (reportsFrom_andThen ?_ (reportsFrom_last ?_ ?_))
  · refine reportsAt_demand .currency rfl ?_ fun k => by cases k <;> simp [PricePlace.position]
    exact decide_eq_false_iff_not.symm
  · refine reportsAt_demand .amount rfl ?_ fun k => by cases k <;> simp [PricePlace.position]
    simp [PricePlace.Violated, Decimal.isNegative]
  · exact fun k => by cases k <;> simp [PricePlace.position]

theorem Stock.reports_validate (s : Stock) (path : String) :
    Reports StockPlace.position (StockPlace.report path) (StockPlace.Violated s)
      (s.validate path) := by
  refine reports_of_reportsFrom (reportsFrom_andThen ?_ (reportsFrom_last ?_ ?_))
  · exact reportsAt_demand .location rfl Text.not_visible_iff
      fun k => by cases k <;> simp [StockPlace.position]
  · refine reportsAt_demand .quantity rfl ?_ fun k => by cases k <;> simp [StockPlace.position]
    simp [StockPlace.Violated]
  · exact fun k => by cases k <;> simp [StockPlace.position]

theorem Listing.reports_validate (l : Listing) (path : String) :
    Reports ListingPlace.position (ListingPlace.report path) (ListingPlace.Violated l)
      (l.validate path) := by
  refine reports_of_reportsFrom (reportsFrom_andThen ?_ (reportsFrom_last ?_ ?_))
  · exact reportsAt_demand .market rfl Text.not_visible_iff
      fun k => by cases k <;> simp [ListingPlace.position]
  · exact reportsAt_demand .title rfl Text.not_visible_iff
      fun k => by cases k <;> simp [ListingPlace.position]
  · exact fun k => by cases k <;> simp [ListingPlace.position]

theorem Variant.reports_validate (v : Variant) (path : String) :
    Reports VariantPlace.position (VariantPlace.report path) (VariantPlace.Violated v)
      (v.validate path) := by
  refine reports_of_reportsFrom (reportsFrom_andThen ?_ (reportsFrom_andThen ?_
    (reportsFrom_andThen ?_ (reportsFrom_last ?_ ?_))))
  · exact reportsAt_demand .id rfl Text.not_visible_iff
      fun k => by cases k <;> simp [VariantPlace.position]
  · exact reportsAt_demand .sku rfl Text.not_visible_iff
      fun k => by cases k <;> simp [VariantPlace.position]
  · refine reportsAt_demand .attributes rfl ?_
      fun k => by cases k <;> simp [VariantPlace.position]
    simp [VariantPlace.Violated]
  · exact reportsAt_each .stock (path ++ ".stock") (fun _ _ => rfl) (fun _ _ => rfl)
      Stock.reports_validate v.stock (fun _ _ => .rfl)
      fun k => by cases k <;> simp [VariantPlace.position]
  · exact fun k => by cases k <;> simp [VariantPlace.position]

/-- **The check of content reports the first place that is violated.** -/
theorem Content.reports_validate (c : Content) :
    Reports ContentPlace.position ContentPlace.report (ContentPlace.Violated c) c.validate := by
  refine reports_of_reportsFrom (reportsFrom_andThen ?_ (reportsFrom_andThen ?_
    (reportsFrom_andThen ?_ (reportsFrom_andThen ?_ (reportsFrom_andThen ?_
    (reportsFrom_andThen ?_ (reportsFrom_last ?_ ?_)))))))
  · exact reportsAt_demand .sku rfl Text.not_visible_iff
      fun k => by cases k <;> simp [ContentPlace.position]
  · exact reportsAt_demand .title rfl Text.not_visible_iff
      fun k => by cases k <;> simp [ContentPlace.position]
  · refine reportsAt_demand .prices rfl ?_ fun k => by cases k <;> simp [ContentPlace.position]
    simp [ContentPlace.Violated]
  · exact reportsAt_each .price "prices" (fun _ _ => rfl) (fun _ _ => rfl)
      Price.reports_validate c.prices (fun _ _ => .rfl)
      fun k => by cases k <;> simp [ContentPlace.position]
  · exact reportsAt_each .variant "variants" (fun _ _ => rfl) (fun _ _ => rfl)
      Variant.reports_validate c.variants (fun _ _ => .rfl)
      fun k => by cases k <;> simp [ContentPlace.position]
  · refine reportsAt_demand .listings rfl ?_ fun k => by cases k <;> simp [ContentPlace.position]
    simp [ContentPlace.Violated]
  · exact reportsAt_each .listing "metadata" (fun _ _ => rfl) (fun _ _ => rfl)
      Listing.reports_validate c.listings (fun _ _ => .rfl)
      fun k => by cases k <;> simp [ContentPlace.position]
  · exact fun k => by cases k <;> simp [ContentPlace.position]

/-- What is reported of content is reported of a product in the section of its content. -/
theorem Product.reportsAt_content (p : Product) :
    ReportsAt ProductPlace.position ProductPlace.report (ProductPlace.Violated p) 2
      p.content.validate := by
  have hcontent := p.content.reports_validate
  rcases hcheck : p.content.validate with v | ⟨⟩
  · rw [hcheck] at hcontent
    obtain ⟨k, ⟨hk, hfirst⟩, rfl⟩ := hcontent
    refine ⟨.content k, ⟨⟨hk, rfl⟩, ?_⟩, rfl⟩
    rintro (_ | _ | k') ⟨hk', hn⟩
    · cases hn
    · cases hn
    · rcases hfirst k' hk' with rfl | hlt
      · exact .inl rfl
      · exact .inr (.cons hlt)
  · rw [hcheck] at hcontent
    rintro (_ | _ | k) ⟨hk, hn⟩
    · cases hn
    · cases hn
    · exact hcontent k hk

theorem Product.reports_validate (p : Product) :
    Reports ProductPlace.position ProductPlace.report (ProductPlace.Violated p) p.validate := by
  refine reports_of_reportsFrom (reportsFrom_andThen ?_ (reportsFrom_andThen ?_
    (reportsFrom_last p.reportsAt_content ?_)))
  · exact reportsAt_demand .id rfl Text.not_visible_iff
      fun k => by cases k <;> simp [ProductPlace.position]
  · refine reportsAt_demand .version rfl ?_ fun k => by cases k <;> simp [ProductPlace.position]
    simp [ProductPlace.Violated]
  · exact fun k => by cases k <;> simp [ProductPlace.position]

/-! ## What is accepted -/

theorem Check.notBlank_ok_iff {s field : String} :
    notBlank s field = .ok () ↔ Text.Visible s := by
  rw [notBlank, demand_ok_iff, Text.visible_iff]

/-- The entries of a list are accepted if each of them is. -/
theorem Check.each_ok_iff_forall {α : Type} {check : α → String → Check} {valid : α → Prop}
    (hcheck : ∀ a path, check a path = .ok () ↔ valid a) {list : String} {as : List α} :
    each check list 0 as = .ok () ↔ ∀ a ∈ as, valid a := by
  simp only [each_ok_iff, hcheck, List.mem_iff_getElem]
  exact ⟨fun h a ⟨j, hj, hget⟩ => hget ▸ h j hj, fun h j hj => h _ ⟨j, hj, rfl⟩⟩

theorem Price.validate_eq_ok_iff_valid (p : Price) (path : String) :
    p.validate path = .ok () ↔ p.Valid := by
  rw [validate, andThen_ok_iff, demand_ok_iff, demand_ok_iff, decide_eq_true_iff,
    Decimal.isNegative, Bool.not_eq_true', decide_eq_false_iff_not, Int.not_lt]
  exact ⟨fun h => ⟨h.1, h.2⟩, fun h => ⟨h.currency, h.amount⟩⟩

theorem Stock.validate_eq_ok_iff_valid (s : Stock) (path : String) :
    s.validate path = .ok () ↔ s.Valid := by
  rw [validate, andThen_ok_iff, notBlank_ok_iff, demand_ok_iff, decide_eq_true_iff]
  exact ⟨fun h => ⟨h.1, h.2⟩, fun h => ⟨h.location, h.quantity⟩⟩

theorem Listing.validate_eq_ok_iff_valid (l : Listing) (path : String) :
    l.validate path = .ok () ↔ l.Valid := by
  rw [validate, andThen_ok_iff, notBlank_ok_iff, notBlank_ok_iff]
  exact ⟨fun h => ⟨h.1, h.2⟩, fun h => ⟨h.market, h.title⟩⟩

theorem Variant.validate_eq_ok_iff_valid (v : Variant) (path : String) :
    v.validate path = .ok () ↔ v.Valid := by
  simp only [validate, andThen_ok_iff, notBlank_ok_iff, demand_ok_iff, Bool.not_eq_true',
    List.isEmpty_eq_false_iff, each_ok_iff_forall Stock.validate_eq_ok_iff_valid]
  exact ⟨fun h => ⟨h.1, h.2.1, h.2.2.1, h.2.2.2⟩,
    fun h => ⟨h.id, h.sku, h.attributes, h.stock⟩⟩

/-- **The check of content accepts just what meets all conditions.** -/
theorem Content.validate_eq_ok_iff_valid (c : Content) : c.validate = .ok () ↔ c.Valid := by
  simp only [validate, andThen_ok_iff, notBlank_ok_iff, demand_ok_iff, Bool.not_eq_true',
    List.isEmpty_eq_false_iff, each_ok_iff_forall Price.validate_eq_ok_iff_valid,
    each_ok_iff_forall Variant.validate_eq_ok_iff_valid,
    each_ok_iff_forall Listing.validate_eq_ok_iff_valid]
  constructor
  · rintro ⟨hsku, htitle, hsome, hprices, hvariants, hlisted, hlistings⟩
    exact ⟨hsku, htitle, hsome, hprices, hvariants, hlisted, hlistings⟩
  · intro h
    exact ⟨h.sku, h.title, h.hasPrice, h.prices, h.variants, h.hasListing, h.listings⟩

/-- **The check of products accepts just what meets all conditions.** -/
theorem Product.validate_eq_ok_iff_valid (p : Product) : p.validate = .ok () ↔ p.Valid := by
  rw [validate, andThen_ok_iff, andThen_ok_iff, notBlank_ok_iff, demand_ok_iff,
    decide_eq_true_iff, Content.validate_eq_ok_iff_valid]
  exact ⟨fun h => ⟨h.1, h.2.1, h.2.2⟩, fun h => ⟨h.id, h.version, h.content⟩⟩

/-! ## New versions -/

theorem Supply.visible_productId (σ : Supply) (n : Nat) : Text.Visible (σ.productId n) := by
  rw [Text.Visible, productId, String.toList_append]
  exact ⟨'p', List.mem_append_left _ (by decide), by decide⟩

/-- A new product is valid if its content is. -/
theorem Product.valid_ofContent_iff {id : String} {c : Content} {now : Instant}
    (hid : Text.Visible id) : (ofContent id c now).Valid ↔ c.Valid :=
  ⟨Valid.content, fun hc => ⟨hid, Int.le_refl 1, hc⟩⟩

/-- The next version of a valid product is valid. -/
theorem Product.Valid.bump {p : Product} (h : p.Valid) : p.bump.Valid :=
  ⟨h.id, Int.le_add_one h.version, h.content⟩

theorem Product.validate_ofContent (σ : Supply) (n : Nat) (c : Content) (now : Instant) :
    (ofContent (σ.productId n) c now).validate = .ok () ↔ c.validate = .ok () := by
  rw [validate_eq_ok_iff_valid, Content.validate_eq_ok_iff_valid]
  exact valid_ofContent_iff (σ.visible_productId n)

theorem Product.validate_bump {p : Product} (h : p.validate = .ok ()) :
    p.bump.validate = .ok () := by
  rw [validate_eq_ok_iff_valid] at h ⊢
  exact h.bump

/-! ## Exactness -/

/-- **A check is exact**: it accepts just what is valid, and of anything else it reports the first
place that is violated. -/
structure Check.Exact {κ : Type} (position : κ → List Nat) (report : κ → Violation)
    (violated : κ → Prop) (valid : Prop) (check : Check) : Prop where
  accepted : check = .ok () ↔ valid
  rejected : ¬ valid → ∃ k, IsFirst position violated k ∧ check = .error (report k)

theorem Check.Exact.of_reports {κ : Type} {position : κ → List Nat} {report : κ → Violation}
    {violated : κ → Prop} {valid : Prop} {check : Check} (haccepted : check = .ok () ↔ valid)
    (hreports : Reports position report violated check) :
    Exact position report violated valid check where
  accepted := haccepted
  rejected hvalid := by
    rcases check with v | ⟨⟩
    · obtain ⟨k, hk, rfl⟩ := hreports
      exact ⟨k, hk, rfl⟩
    · exact absurd (haccepted.mp rfl) hvalid

/-- The check of a content is exact. -/
def Content.Examined (c : Content) : Prop :=
  Exact ContentPlace.position ContentPlace.report (ContentPlace.Violated c) c.Valid c.validate

/-- The check of a product is exact. -/
def Product.Examined (p : Product) : Prop :=
  Exact ProductPlace.position ProductPlace.report (ProductPlace.Violated p) p.Valid p.validate

theorem Content.examined (c : Content) : c.Examined :=
  .of_reports c.validate_eq_ok_iff_valid c.reports_validate

theorem Product.examined (p : Product) : p.Examined :=
  .of_reports p.validate_eq_ok_iff_valid p.reports_validate

/-- **Validation is exact and names the first place at fault**, of contents and of products.  A
product made of a content is valid if the content is, whatever its token and whenever it is made,
and a product that is valid stays so in its next version. -/
theorem validation_exact :
    (∀ c : Content, c.Examined) ∧ (∀ p : Product, p.Examined) ∧
      (∀ (σ : Supply) (n : Nat) (c : Content) (now : Instant),
        (Product.ofContent (σ.productId n) c now).validate = .ok () ↔ c.validate = .ok ()) ∧
      ∀ p : Product, p.validate = .ok () → p.bump.validate = .ok () :=
  ⟨Content.examined, Product.examined, Product.validate_ofContent, fun _ => Product.validate_bump⟩

end CatalogChain
