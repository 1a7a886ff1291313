import CatalogChain.Proofs.Instant.Reading
import CatalogChain.Proofs.Json.Encoding
import CatalogChain.Proofs.Json.Order
import CatalogChain.Proofs.Product.Codec

/-!
# Products survive encoding

Content and products read back from the values that their encoders write, as their parts do
(`Content.read_toJson`, `Product.read_toJson`): all quantities and the version must have 64 bits,
and what is read is the product with plain amounts (`Product.plain`), where zero has no sign.  The
bounds are no restriction on what has been read itself (`Product.inRange_read`), and with them every
encoder writes a value that reads back from its text (`Product.within_toJson`).
-/

namespace CatalogChain

open Outline

/-! ## Reading what has been written -/

theorem Instant.read_toJson (t : Instant) : Instant.read (ofJson t.toJson) = .ok t := by
  rw [Instant.toJson, ofJson, Instant.read, Instant.read?_text]
  rfl

theorem readNat64_nat {n : Nat} (h : IsLength n) : readNat64 (ofJson (.nat n)) = .ok n := by
  have hrange : (0 : Int) ≤ n ∧ (n : Int) < twoTo 64 := ⟨by omega, Int.ofNat_lt.mpr h⟩
  simp only [readNat64, Json.nat, ofJson, readIntBetween, if_pos hrange]
  rfl

/-- Only an amount of zero is read differently. -/
theorem Decimal.plain_of_ne_zero {d : Decimal} (h : d.magnitude ≠ 0) : d.plain = d := by
  obtain ⟨negative, magnitude, scale, hmagnitude, hscale⟩ := d
  simpa [plain] using fun _ => h

/-- Content as it is read: amounts of zero have no sign. -/
def Content.plain (c : Content) : Content := { c with prices := c.prices.map Price.plain }

/-- A product as it is read. -/
def Product.plain (p : Product) : Product := { p with content := p.content.plain }

/-- **A product within bounds**: its quantities and its version have 64 bits. -/
structure Product.InRange (p : Product) : Prop where
  content : p.content.InRange
  version : IsInt64 p.version

/-- The fields of content are read wherever its members stand among others. -/
theorem Content.fields_given {c : Content} (h : c.InRange) {ms : List (String × Json)}
    (hms : ∀ m ∈ c.members, Entries.get? m.1 ms = some m.2) :
    Content.fields (.given ms) = .ok c.plain := by
  simp only [members, List.forall_mem_cons] at hms
  obtain ⟨hsku, htitle, hdescription, hprices, hvariants, hlistings, -⟩ := hms
  refine Fields.seq_eq_ok ?_ (field_given hlistings (readListings_list c.listings))
  refine Fields.seq_eq_ok ?_ (fieldOr_given hvariants (readVariants_list h))
  refine Fields.seq_eq_ok ?_ (field_given hprices (readPrices_list c.prices))
  refine Fields.seq_eq_ok ?_ (fieldOr_given hdescription (readText_string c.description))
  refine Fields.seq_eq_ok ?_ (field_given htitle (readText_string c.title))
  exact Fields.map_eq_ok _ (field_given hsku (readText_string c.sku))

/-- **Content reads back.** -/
theorem Content.read_toJson {c : Content} (h : c.InRange) :
    Content.read (ofJson c.toJson) = .ok c.plain := by
  refine readRecord_object (by simp [members, names]) (by simp [members, Entries.keys]) ?_
  refine Content.fields_given h ?_
  simp [members, Entries.get?]

/-- **A product reads back.** -/
theorem Product.read_toJson {p : Product} (h : p.InRange) :
    Product.read (ofJson p.toJson) = .ok p.plain := by
  refine readRecord_object (by simp [Content.members, names, Content.names])
    (by simp [Content.members, Entries.keys]) ?_
  refine Fields.seq_eq_ok ?_ (fieldOr_given rfl (readText_string p.fingerprint))
  refine Fields.seq_eq_ok ?_ (field_given rfl (readInt64_int h.version))
  refine Fields.seq_eq_ok ?_ (fieldOr_given rfl p.updatedAt.read_toJson)
  refine Fields.seq_eq_ok ?_ (fieldOr_given rfl p.createdAt.read_toJson)
  refine Fields.seq_eq_ok ?_ (Content.fields_given h.content ?_)
  · exact Fields.map_eq_ok _ (field_given rfl (readText_string p.id))
  · simp [Content.members, Entries.get?]

/-! ## What has been read is within bounds -/

theorem Stock.inRange_read {o : Outline} {s : Stock} (h : Stock.read o = .ok s) : s.InRange := by
  obtain ⟨r, hr, hfields⟩ := readRecord_eq_ok h
  obtain ⟨_, quantity, rfl, hfields, hquantity⟩ := Fields.of_seq_eq_ok hfields
  obtain ⟨location, rfl, -⟩ := Fields.of_map_eq_ok hfields
  obtain ⟨p, -, hread⟩ := field_eq_ok hr hquantity
  exact isInt64_of_readInt64 hread

theorem Variant.inRange_read {o : Outline} {v : Variant} (h : Variant.read o = .ok v) :
    v.InRange := by
  obtain ⟨r, hr, hfields⟩ := readRecord_eq_ok h
  obtain ⟨_, stock, rfl, hfields, hstock⟩ := Fields.of_seq_eq_ok hfields
  obtain ⟨_, attributes, rfl, hfields, -⟩ := Fields.of_seq_eq_ok hfields
  obtain ⟨_, sku, rfl, hfields, -⟩ := Fields.of_seq_eq_ok hfields
  obtain ⟨id, rfl, -⟩ := Fields.of_map_eq_ok hfields
  rcases fieldOr_eq_ok hr hstock with rfl | ⟨p, -, hread⟩
  · intro s hs
    cases hs
  · intro s hs
    obtain ⟨q, -, hs⟩ := readList_eq_ok hread s hs
    exact Stock.inRange_read hs

theorem Content.inRange_fields {o : Outline} {r : Record} (hr : r.From o) {c : Content}
    (h : Content.fields r = .ok c) : c.InRange := by
  obtain ⟨_, listings, rfl, h, -⟩ := Fields.of_seq_eq_ok h
  obtain ⟨_, variants, rfl, h, hvariants⟩ := Fields.of_seq_eq_ok h
  obtain ⟨_, prices, rfl, h, -⟩ := Fields.of_seq_eq_ok h
  obtain ⟨_, description, rfl, h, -⟩ := Fields.of_seq_eq_ok h
  obtain ⟨_, title, rfl, h, -⟩ := Fields.of_seq_eq_ok h
  obtain ⟨sku, rfl, -⟩ := Fields.of_map_eq_ok h
  rcases fieldOr_eq_ok hr hvariants with rfl | ⟨p, -, hread⟩
  · intro v hv
    cases hv
  · intro v hv
    obtain ⟨q, -, hv⟩ := readList_eq_ok hread v hv
    exact Variant.inRange_read hv

/-- **Content that has been read is within bounds.** -/
theorem Content.inRange_read {o : Outline} {c : Content} (h : Content.read o = .ok c) :
    c.InRange := by
  obtain ⟨r, hr, hfields⟩ := readRecord_eq_ok h
  exact inRange_fields hr hfields

/-- **A product that has been read is within bounds.** -/
theorem Product.inRange_read {o : Outline} {p : Product} (h : Product.read o = .ok p) :
    p.InRange := by
  obtain ⟨r, hr, hfields⟩ := readRecord_eq_ok h
  obtain ⟨_, fingerprint, rfl, hfields, -⟩ := Fields.of_seq_eq_ok hfields
  obtain ⟨_, version, rfl, hfields, hversion⟩ := Fields.of_seq_eq_ok hfields
  obtain ⟨_, updatedAt, rfl, hfields, -⟩ := Fields.of_seq_eq_ok hfields
  obtain ⟨_, createdAt, rfl, hfields, -⟩ := Fields.of_seq_eq_ok hfields
  obtain ⟨_, content, rfl, hfields, hcontent⟩ := Fields.of_seq_eq_ok hfields
  obtain ⟨id, rfl, -⟩ := Fields.of_map_eq_ok hfields
  obtain ⟨q, -, hread⟩ := field_eq_ok hr hversion
  exact ⟨Content.inRange_fields hr hcontent, isInt64_of_readInt64 hread⟩

/-! ## What is written -/

theorem Price.within_toJson (p : Price) : p.toJson.Within 1 := by
  refine Json.within_object ?_
  simp only [List.forall_mem_cons]
  exact ⟨Json.within_string 0 _, Json.within_string 0 _, by simp⟩

theorem Stock.within_toJson {s : Stock} (h : s.InRange) : s.toJson.Within 1 := by
  refine Json.within_object ?_
  simp only [List.forall_mem_cons]
  exact ⟨Json.within_string 0 _, Json.within_int 0 h, by simp⟩

theorem Variant.within_toJson {v : Variant} (h : v.InRange) : v.toJson.Within 3 := by
  have hattributes : (Json.object (v.attributes.entries.map fun a => (a.1, .string a.2))).Within
      2 := by
    refine Json.within_object fun m hm => ?_
    obtain ⟨a, -, rfl⟩ := List.mem_map.mp hm
    exact Json.within_string 1 a.2
  have hstock : (Json.list Stock.toJson v.stock).Within 2 :=
    Json.within_list fun s hs => Stock.within_toJson (h s hs)
  refine Json.within_object ?_
  simp only [List.forall_mem_cons]
  exact ⟨Json.within_string 2 _, Json.within_string 2 _, hattributes, hstock, by simp⟩

theorem Listing.within_toJson (l : Listing) : l.toJson.Within 1 := by
  refine Json.within_object ?_
  simp only [List.forall_mem_cons]
  exact ⟨Json.within_string 0 _, Json.within_string 0 _, Json.within_string 0 _,
    Json.within_string 0 _, by simp⟩

theorem Content.within_members {c : Content} (h : c.InRange) : ∀ m ∈ c.members, m.2.Within 4 := by
  have hprices : (Json.list Price.toJson c.prices).Within 2 :=
    Json.within_list fun p _ => p.within_toJson
  have hvariants : (Json.list Variant.toJson c.variants).Within 4 :=
    Json.within_list fun v hv => Variant.within_toJson (h v hv)
  have hlistings : (Json.list Listing.toJson c.listings).Within 2 :=
    Json.within_list fun l _ => l.within_toJson
  simp only [members, List.forall_mem_cons]
  exact ⟨Json.within_string 4 _, Json.within_string 4 _, Json.within_string 4 _,
    hprices.mono (by decide), hvariants, hlistings.mono (by decide), by simp⟩

theorem Content.within_toJson {c : Content} (h : c.InRange) : c.toJson.Within 5 :=
  Json.within_object (within_members h)

/-- **A product is written as a value that reads back.** -/
theorem Product.within_toJson {p : Product} (h : p.InRange) : p.toJson.Within 5 := by
  refine Json.within_object ?_
  simp only [List.cons_append, List.forall_mem_cons, List.forall_mem_append]
  exact ⟨Json.within_string 4 _, Content.within_members h.content, Json.within_string 4 _,
    Json.within_string 4 _, Json.within_int 4 h.version, Json.within_string 4 _, by simp⟩

/-! ## The names of members -/

theorem Price.distinct_toJson (p : Price) : p.toJson.Distinct := by
  refine Json.distinct_object (by simp [Entries.keys]) ?_
  simp only [List.forall_mem_cons]
  exact ⟨Json.distinct_string _, Json.distinct_string _, by simp⟩

theorem Stock.distinct_toJson (s : Stock) : s.toJson.Distinct := by
  refine Json.distinct_object (by simp [Entries.keys]) ?_
  simp only [List.forall_mem_cons]
  exact ⟨Json.distinct_string _, Json.distinct_int _, by simp⟩

theorem Variant.distinct_toJson (v : Variant) : v.toJson.Distinct := by
  have hattributes : (Json.object (v.attributes.entries.map fun a =>
      (a.1, .string a.2))).Distinct := by
    refine Json.distinct_object ?_ fun m hm => ?_
    · rw [Entries.keys, List.map_map]
      exact v.attributes.sorted.imp fun hlt => (String.ne_of_lt hlt)
    · obtain ⟨a, -, rfl⟩ := List.mem_map.mp hm
      exact Json.distinct_string a.2
  refine Json.distinct_object (by simp [Entries.keys]) ?_
  simp only [List.forall_mem_cons]
  exact ⟨Json.distinct_string _, Json.distinct_string _, hattributes,
    Json.distinct_list fun s _ => s.distinct_toJson, by simp⟩

theorem Listing.distinct_toJson (l : Listing) : l.toJson.Distinct := by
  refine Json.distinct_object (by simp [Entries.keys]) ?_
  simp only [List.forall_mem_cons]
  exact ⟨Json.distinct_string _, Json.distinct_string _, Json.distinct_string _,
    Json.distinct_string _, by simp⟩

/-- **No object in a content has a name twice.** -/
theorem Content.distinct_members (c : Content) : ∀ m ∈ c.members, m.2.Distinct := by
  simp only [members, List.forall_mem_cons]
  exact ⟨Json.distinct_string _, Json.distinct_string _, Json.distinct_string _,
    Json.distinct_list fun p _ => p.distinct_toJson,
    Json.distinct_list fun v _ => v.distinct_toJson,
    Json.distinct_list fun l _ => l.distinct_toJson, by simp⟩

/-! ## Codecs -/

def Price.codec : Codec Price := ⟨Price.read, Price.toJson⟩

def Stock.codec : Codec Stock := ⟨Stock.read, Stock.toJson⟩

def Variant.codec : Codec Variant := ⟨Variant.read, Variant.toJson⟩

def Listing.codec : Codec Listing := ⟨Listing.read, Listing.toJson⟩

def Content.codec : Codec Content := ⟨Content.read, Content.toJson⟩

def Product.codec : Codec Product := ⟨Product.read, Product.toJson⟩

theorem Price.returns (p : Price) : codec.Returns p p.plain :=
  Codec.returns_of_read p.within_toJson.integral p.read_toJson

theorem Stock.returns {s : Stock} (h : s.InRange) : codec.Returns s s :=
  Codec.returns_of_read (within_toJson h).integral (read_toJson h)

theorem Variant.returns {v : Variant} (h : v.InRange) : codec.Returns v v :=
  Codec.returns_of_read (within_toJson h).integral (read_toJson h)

theorem Listing.returns (l : Listing) : codec.Returns l l :=
  Codec.returns_of_read l.within_toJson.integral l.read_toJson

theorem Content.returns {c : Content} (h : c.InRange) : codec.Returns c c.plain :=
  Codec.returns_of_read (within_toJson h).integral (read_toJson h)

theorem Product.returns {p : Product} (h : p.InRange) : codec.Returns p p.plain :=
  Codec.returns_of_read (within_toJson h).integral (read_toJson h)

end CatalogChain
