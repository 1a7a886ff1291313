import CatalogChain.Product.Codec
import CatalogChain.Proofs.Decimal.Reading
import CatalogChain.Proofs.Json.Record
import CatalogChain.Proofs.Product.Bounds

/-!
# Parts of a product read back

What the encoders of a product write, the readers take for the same value: listings exactly
(`Listing.read_toJson`), variants if the quantities of their stock have 64 bits
(`Variant.read_toJson`), and prices up to the sign of an amount that is zero (`Price.read_toJson`).
-/

namespace CatalogChain

open Outline

/-! ## Prices -/

theorem Decimal.read_toJson (d : Decimal) : Decimal.read (ofJson d.toJson) = .ok d.plain := by
  rw [Decimal.toJson, ofJson, Decimal.read, Decimal.read?_text]
  rfl

/-- A price as it is read: an amount of zero has no sign. -/
def Price.plain (p : Price) : Price := { p with amount := p.amount.plain }

theorem Price.read_toJson (p : Price) : Price.read (ofJson p.toJson) = .ok p.plain := by
  refine readRecord_object (by simp [names]) (by simp [Entries.keys]) ?_
  refine Fields.seq_eq_ok ?_ (field_given rfl p.amount.read_toJson)
  exact Fields.map_eq_ok _ (field_given rfl (readText_string p.currency))

theorem Price.same_plain (p : Price) : p.plain.same p = true := by
  rw [Price.same, Bool.and_eq_true, decide_eq_true_iff]
  exact ⟨rfl, p.amount.sameValue_plain⟩

/-! ## Variants -/

theorem readInt64_int {n : Int} (h : IsInt64 n) : readInt64 (ofJson (.int n)) = .ok n := by
  exact if_pos h

theorem Stock.read_toJson {s : Stock} (h : s.InRange) : Stock.read (ofJson s.toJson) = .ok s := by
  obtain ⟨location, quantity⟩ := s
  refine readRecord_object (by simp [names]) (by simp [Entries.keys]) ?_
  refine Fields.seq_eq_ok ?_ (field_given rfl (readInt64_int h))
  exact Fields.map_eq_ok _ (field_given rfl (readText_string location))

/-- **A variant reads back.** -/
theorem Variant.read_toJson {v : Variant} (h : v.InRange) :
    Variant.read (ofJson v.toJson) = .ok v := by
  have hattributes := readTable_object readText_string v.attributes
  have hstock : readList Stock.read (ofJson (.list Stock.toJson v.stock)) = .ok v.stock := by
    rw [readList_list fun s hs => Stock.read_toJson (h s hs), List.map_id']
  obtain ⟨id, sku, attributes, stock⟩ := v
  refine readRecord_object (by simp [names]) (by simp [Entries.keys]) ?_
  refine Fields.seq_eq_ok ?_ (fieldOr_given rfl hstock)
  refine Fields.seq_eq_ok ?_ (field_given rfl hattributes)
  refine Fields.seq_eq_ok ?_ (field_given rfl (readText_string sku))
  exact Fields.map_eq_ok _ (field_given rfl (readText_string id))

/-! ## Listings -/

/-- **A listing reads back.** -/
theorem Listing.read_toJson (l : Listing) : Listing.read (ofJson l.toJson) = .ok l := by
  obtain ⟨market, title, description, keywords⟩ := l
  refine readRecord_object (by simp [names]) (by simp [Entries.keys]) ?_
  refine Fields.seq_eq_ok ?_ (fieldOr_given rfl (readText_string keywords))
  refine Fields.seq_eq_ok ?_ (fieldOr_given rfl (readText_string description))
  refine Fields.seq_eq_ok ?_ (field_given rfl (readText_string title))
  exact Fields.map_eq_ok _ (field_given rfl (readText_string market))

/-! ## Lists of them -/

theorem readPrices_list (ps : List Price) :
    readList Price.read (ofJson (.list Price.toJson ps)) = .ok (ps.map Price.plain) :=
  readList_list fun p _ => p.read_toJson

theorem readVariants_list {vs : List Variant} (h : ∀ v ∈ vs, v.InRange) :
    readList Variant.read (ofJson (.list Variant.toJson vs)) = .ok vs := by
  rw [readList_list fun v hv => Variant.read_toJson (h v hv), List.map_id']

theorem readListings_list (ls : List Listing) :
    readList Listing.read (ofJson (.list Listing.toJson ls)) = .ok ls := by
  rw [readList_list fun l _ => l.read_toJson, List.map_id']

end CatalogChain
