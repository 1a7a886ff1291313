import CatalogChain.Proofs.Event.Encoding
import CatalogChain.Proofs.Service.Outcomes
import CatalogChain.Proofs.Service.Rebuild

/-!
# What a service makes survives encoding

Whatever is decoded comes back from its encoding (`Decodes`), and so does whatever a service makes
(`Service.Encodes`, `Deployment.EncodesBatches`).  What is decoded is within the bounds that reading
back asks for, since the reader has met them (`Event.bounded_read`).  What a service makes is within
them because its requests are, and because a log has fewer events than 64 bits can count: sequence
numbers and versions count events (`Agrees.bounded`).  The changes that an update records are
written from two contents within bounds (`FieldChange.within_changesTo`), in which no object has a
name twice, so putting their members in order leaves them the same (`FieldChange.same_changesTo`).

Nothing more comes back than what the text holds: an amount of zero without its sign, and the
members of an object in order.
-/

namespace CatalogChain

open Outline

/-! ## Results of batches -/

/-- A result whose version has 64 bits. -/
def BatchResult.InRange (r : BatchResult) : Prop := ∀ v ∈ r.version, IsInt64 v

/-- **A report within bounds.** -/
structure BatchReport.InRange (r : BatchReport) : Prop where
  results : ∀ x ∈ r.results, x.InRange
  succeeded : IsLength r.succeeded
  failed : IsLength r.failed

namespace BatchResult

/-- The members of a result, of which two may be left out. -/
def members (r : BatchResult) : List (String × Json) :=
  ("id", .string r.id) :: ("success", .bool r.success) ::
    (Json.member? "version" .int r.version ++ Json.member? "error" .string r.error)

theorem get?_version (r : BatchResult) :
    Entries.get? "version" r.members = r.version.map Json.int := by
  unfold members
  cases r.version <;> cases r.error <;> rfl

theorem get?_error (r : BatchResult) :
    Entries.get? "error" r.members = r.error.map Json.string := by
  unfold members
  cases r.version <;> cases r.error <;> rfl

/-- **A result reads back.** -/
theorem read_toJson {r : BatchResult} (h : r.InRange) : read (ofJson r.toJson) = .ok r := by
  have hversion : field? "version" readInt64 (.given r.members) = .ok (r.version.map fun v => v) :=
    field?_option .int r.get?_version (by simp [Json.int]) fun v hv => readInt64_int (h v hv)
  have herror : field? "error" readText (.given r.members) = .ok (r.error.map fun s => s) :=
    field?_option .string r.get?_error (by simp) fun s _ => readText_string s
  rw [Option.map_id'] at hversion herror
  obtain ⟨id, success, version, error⟩ := r
  refine readRecord_object ?_ ?_ ?_
  · cases version <;> cases error <;> simp [names, Json.member?]
  · cases version <;> cases error <;> simp [Entries.keys, Json.member?]
  refine Fields.seq_eq_ok ?_ herror
  refine Fields.seq_eq_ok ?_ hversion
  refine Fields.seq_eq_ok ?_ (field_given (v := .bool success) rfl rfl)
  exact Fields.map_eq_ok _ (field_given rfl (readText_string id))

theorem inRange_read {o : Outline} {r : BatchResult} (h : read o = .ok r) : r.InRange := by
  obtain ⟨record, hrecord, hfields⟩ := readRecord_eq_ok h
  obtain ⟨_, error, rfl, hfields, -⟩ := Fields.of_seq_eq_ok hfields
  obtain ⟨_, version, rfl, hfields, hversion⟩ := Fields.of_seq_eq_ok hfields
  obtain ⟨_, success, rfl, hfields, -⟩ := Fields.of_seq_eq_ok hfields
  obtain ⟨id, rfl, -⟩ := Fields.of_map_eq_ok hfields
  intro v hv
  rcases field?_eq_ok hrecord hversion with rfl | ⟨p, -, -, w, rfl, hread⟩
  · cases hv
  · cases hv
    exact isInt64_of_readInt64 hread

theorem within_toJson {r : BatchResult} (h : r.InRange) : r.toJson.Within 1 := by
  refine Json.within_object fun m hm => ?_
  rcases List.mem_cons.mp hm with rfl | hm
  · exact Json.within_string 0 _
  rcases List.mem_cons.mp hm with rfl | hm
  · exact Json.within_bool 0 _
  rcases List.mem_append.mp hm with hm | hm
  · obtain ⟨v, hv, rfl⟩ := List.mem_map.mp hm
    exact Json.within_int 0 (h v (Option.mem_toList.mp hv))
  · obtain ⟨s, -, rfl⟩ := List.mem_map.mp hm
    exact Json.within_string 0 s

def codec : Codec BatchResult := ⟨read, toJson⟩

theorem returns {r : BatchResult} (h : r.InRange) : codec.Returns r r :=
  Codec.returns_of_read (within_toJson h).integral (read_toJson h)

end BatchResult

namespace BatchReport

/-- **A report reads back.** -/
theorem read_toJson {r : BatchReport} (h : r.InRange) : read (ofJson r.toJson) = .ok r := by
  have hresults : readList BatchResult.read (ofJson (.list BatchResult.toJson r.results)) =
      .ok r.results := by
    rw [readList_list fun x hx => BatchResult.read_toJson (h.results x hx), List.map_id']
  obtain ⟨results, succeeded, failed⟩ := r
  refine readRecord_object (by simp [names]) (by simp [Entries.keys]) ?_
  refine Fields.seq_eq_ok ?_ (field_given rfl (readNat64_nat h.failed))
  refine Fields.seq_eq_ok ?_ (field_given rfl (readNat64_nat h.succeeded))
  exact Fields.map_eq_ok _ (field_given rfl hresults)

theorem inRange_read {o : Outline} {r : BatchReport} (h : read o = .ok r) : r.InRange := by
  obtain ⟨record, hrecord, hfields⟩ := readRecord_eq_ok h
  obtain ⟨_, failed, rfl, hfields, hfailed⟩ := Fields.of_seq_eq_ok hfields
  obtain ⟨_, succeeded, rfl, hfields, hsucceeded⟩ := Fields.of_seq_eq_ok hfields
  obtain ⟨results, rfl, hresults⟩ := Fields.of_map_eq_ok hfields
  obtain ⟨p, -, hresults⟩ := field_eq_ok hrecord hresults
  obtain ⟨q, -, hsucceeded⟩ := field_eq_ok hrecord hsucceeded
  obtain ⟨t, -, hfailed⟩ := field_eq_ok hrecord hfailed
  refine ⟨fun x hx => ?_, isLength_of_readNat64 hsucceeded, isLength_of_readNat64 hfailed⟩
  obtain ⟨_, -, hx⟩ := readList_eq_ok hresults x hx
  exact BatchResult.inRange_read hx

theorem within_toJson {r : BatchReport} (h : r.InRange) : r.toJson.Within 3 := by
  have hresults : (Json.list BatchResult.toJson r.results).Within 2 :=
    Json.within_list fun x hx => BatchResult.within_toJson (h.results x hx)
  refine Json.within_object ?_
  simp only [List.forall_mem_cons]
  exact ⟨hresults, Json.within_nat 2 h.succeeded, Json.within_nat 2 h.failed, by simp⟩

def codec : Codec BatchReport := ⟨read, toJson⟩

theorem returns {r : BatchReport} (h : r.InRange) : codec.Returns r r :=
  Codec.returns_of_read (within_toJson h).integral (read_toJson h)

/-- Fewer results than 64 bits can count are fewer successes and failures. -/
theorem inRange_ofResults {rs : List BatchResult} (h : ∀ r ∈ rs, r.InRange)
    (hlen : IsLength rs.length) : (ofResults rs).InRange where
  results := h
  succeeded := Nat.lt_of_le_of_lt List.countP_le_length hlen
  failed := Nat.lt_of_le_of_lt (Nat.sub_le _ _) hlen

end BatchReport

/-! ## What is decoded -/

/-- **Whatever is decoded comes back from its encoding**, up to the sign of an amount of zero.  The
values of changes must have no number with a fraction or an exponent. -/
structure Decodes : Prop where
  amount : ∀ d : Decimal, d.plain.magnitude = d.magnitude ∧ d.plain.scale = d.scale ∧
    (d.magnitude ≠ 0 → d.plain = d)
  product : ∀ s p, Product.codec.decode? s = some p → Product.codec.Returns p p.plain
  content : ∀ s c, Content.codec.decode? s = some c → Content.codec.Returns c c.plain
  price : ∀ s p, Price.codec.decode? s = some p → Price.codec.Returns p p.plain
  stock : ∀ s x, Stock.codec.decode? s = some x → Stock.codec.Returns x x
  variant : ∀ s v, Variant.codec.decode? s = some v → Variant.codec.Returns v v
  listing : ∀ s l, Listing.codec.decode? s = some l → Listing.codec.Returns l l
  payload : ∀ s p, Payload.codec.decode? s = some p → (∀ c ∈ p.changes, c.FloatFree) →
    Payload.codec.Returns p p.plain
  event : ∀ s e, Event.codec.decode? s = some e → (∀ c ∈ e.payload.changes, c.FloatFree) →
    Event.codec.Returns e e.plain
  change : ∀ s c, FieldChange.codec.decode? s = some c → c.FloatFree → FieldChange.codec.Returns c c
  result : ∀ s r, BatchResult.codec.decode? s = some r → BatchResult.codec.Returns r r
  report : ∀ s r, BatchReport.codec.decode? s = some r → BatchReport.codec.Returns r r
  page : ∀ s p, EventPage.codec.decode? s = some p →
    (∀ e ∈ p.events, ∀ c ∈ e.payload.changes, c.FloatFree) → EventPage.codec.Returns p p.plain

theorem decodes : Decodes where
  amount d := ⟨rfl, rfl, Decimal.plain_of_ne_zero⟩
  product s p h := by
    obtain ⟨o, -, hread⟩ := Codec.exists_outline h
    exact Product.returns (Product.inRange_read hread)
  content s c h := by
    obtain ⟨o, -, hread⟩ := Codec.exists_outline h
    exact Content.returns (Content.inRange_read hread)
  price s p _ := p.returns
  stock s x h := by
    obtain ⟨o, -, hread⟩ := Codec.exists_outline h
    exact Stock.returns (Stock.inRange_read hread)
  variant s v h := by
    obtain ⟨o, -, hread⟩ := Codec.exists_outline h
    exact Variant.returns (Variant.inRange_read hread)
  listing s l _ := l.returns
  payload s p h hfree := by
    obtain ⟨o, hnumbers, hread⟩ := Codec.exists_outline h
    have hbounded := Payload.bounded_read (d := 124) hread hnumbers
    have hreturns := Payload.returns (hbounded.imp fun c hc htaken => htaken.within (hfree c hc))
    rwa [Payload.sorted_eq hbounded] at hreturns
  event s e h hfree := by
    obtain ⟨o, hnumbers, hread⟩ := Codec.exists_outline h
    have hbounded := Event.bounded_read (d := 123) hread hnumbers
    have hreturns := Event.returns (hbounded.imp fun c hc htaken => htaken.within (hfree c hc))
    rwa [Event.sorted_eq hbounded] at hreturns
  change s c h hfree := by
    obtain ⟨o, hnumbers, hread⟩ := Codec.exists_outline h
    have htaken : c.Taken 126 := FieldChange.taken_read hread hnumbers fun p _ v hv =>
      (toJson_taken hv).depth
    have hreturns := FieldChange.returns (htaken.within hfree)
    rwa [htaken.sorted_eq] at hreturns
  result s r h := by
    obtain ⟨o, -, hread⟩ := Codec.exists_outline h
    exact BatchResult.returns (BatchResult.inRange_read hread)
  report s r h := by
    obtain ⟨o, -, hread⟩ := Codec.exists_outline h
    exact BatchReport.returns (BatchReport.inRange_read hread)
  page s p h hfree := by
    obtain ⟨o, hnumbers, hread⟩ := Codec.exists_outline h
    have hbounded := EventPage.bounded_read (d := 121) hread hnumbers
    have hreturns := EventPage.returns
      (hbounded.imp fun e he c hc htaken => htaken.within (hfree e he c hc))
    rwa [EventPage.sorted_eq hbounded] at hreturns

/-! ## What a service makes -/

/-- The values of a change between two values are these. -/
theorem FieldChange.forall_values_between {P : Json → Prop} {field : String} {same : Bool}
    {old new : Json} (hold : P old) (hnew : P new) :
    ∀ c ∈ between field same old new, ∀ v ∈ c.values, P v := by
  intro c hc
  unfold between at hc
  split_ifs at hc
  · cases hc
  · rw [List.mem_singleton.mp hc]
    simpa [values] using ⟨hold, hnew⟩

/-- **The values of changes are those of members**, so they have what all of these have. -/
theorem FieldChange.forall_values_changesTo {P : Json → Prop} {old new : Content}
    (hold : ∀ m ∈ old.members, P m.2) (hnew : ∀ m ∈ new.members, P m.2) :
    ∀ c ∈ old.changesTo new, ∀ v ∈ c.values, P v := by
  simp only [Content.members, List.forall_mem_cons] at hold hnew
  obtain ⟨hsku, htitle, hdescription, hprices, hvariants, hlistings, -⟩ := hold
  obtain ⟨hsku', htitle', hdescription', hprices', hvariants', hlistings', -⟩ := hnew
  unfold Content.changesTo
  simp only [List.forall_mem_append]
  exact ⟨⟨⟨⟨⟨forall_values_between hsku hsku', forall_values_between htitle htitle'⟩,
    forall_values_between hdescription hdescription'⟩, forall_values_between hprices hprices'⟩,
    forall_values_between hvariants hvariants'⟩, forall_values_between hlistings hlistings'⟩

theorem Content.ne_null_of_mem_members (c : Content) : ∀ m ∈ c.members, m.2 ≠ .null := by
  simp [members, Json.list]

/-- **The changes between contents within bounds are within bounds.** -/
theorem FieldChange.within_changesTo {old new : Content} (hold : old.InRange)
    (hnew : new.InRange) {c : FieldChange} (hc : c ∈ old.changesTo new) : c.Within 4 where
  present := by
    have hnull : ∀ v ∈ c.values, v ≠ .null := forall_values_changesTo (P := (· ≠ .null))
      old.ne_null_of_mem_members new.ne_null_of_mem_members c hc
    intro heq
    exact hnull .null (by simp [values, heq]) rfl
  values := forall_values_changesTo (Content.within_members hold) (Content.within_members hnew) c hc

/-- **The changes between contents stay the same** when their values are put in order. -/
theorem FieldChange.same_changesTo {old new : Content} {c : FieldChange}
    (hc : c ∈ old.changesTo new) : c.Same c.sorted :=
  same_sorted (forall_values_changesTo old.distinct_members new.distinct_members c hc)

/-- Only an update has changes, and it has those against the event before. -/
theorem Life.changes_eq {id : String} {es : List Event} (h : Life id es) {e : Event}
    (he : e ∈ es) : e.payload.changes = [] ∨
      ∃ b ∈ es, e.payload.changes = b.snapshot.content.changesTo e.snapshot.content := by
  by_cases hk : e.kind = .updated
  · obtain ⟨i, hi, rfl⟩ := List.getElem_of_mem he
    cases i with
    | zero =>
      have hcreated := (h.begins_getElem hi).1
      rw [hk] at hcreated
      cases hcreated
    | succ i =>
      have hsucceeds := h.succeeds_getElem (Nat.lt_of_succ_lt hi) hi
      exact .inr ⟨_, List.getElem_mem _, hsucceeds.difference hk⟩
  · left
    unfold Event.kind at hk
    cases hp : e.payload with
    | updated =>
      rw [hp] at hk
      exact absurd rfl hk
    | created | deleted => rfl

/-- A number of events that 63 bits can count is a version. -/
theorem isInt64_of_le {v : Int} {n : Nat} (hn : n < twoTo 63) (h0 : 0 ≤ v) (h : v ≤ n) :
    IsInt64 v := by
  have hneg : -(twoTo 63 : Int) ≤ 0 := by decide
  exact ⟨Int.le_trans hneg h0, Int.lt_of_le_of_lt h (Int.ofNat_lt.mpr hn)⟩

namespace Agrees

variable {es : List Event} {s : Service} (h : Agrees es s [])
include h

theorem version_le {e : Event} (he : e ∈ es) :
    1 ≤ e.version ∧ e.version ≤ s.log.lastSequence := by
  obtain ⟨h1, hle⟩ := (h.agreement.lives e.entityId).version_bounds (mem_trail.mpr ⟨he, rfl⟩)
  have hlen : (trail e.entityId es).length ≤ es.length := List.length_filter_le ..
  rw [h.records.last]
  omega

/-- The changes of an event stay the same when their values are put in order. -/
theorem same_sorted_change {e : Event} (he : e ∈ es) {c : FieldChange}
    (hc : c ∈ e.payload.changes) : c.Same c.sorted := by
  have hlife := h.agreement.lives e.entityId
  rcases hlife.changes_eq (mem_trail.mpr ⟨he, rfl⟩) with hnil | ⟨b, -, hchanges⟩
  · rw [hnil] at hc
    cases hc
  · rw [hchanges] at hc
    exact FieldChange.same_changesTo hc

variable (hrange : s.Holds Content.InRange) (hcount : s.log.lastSequence < twoTo 63)
include hrange

theorem content_inRange {e : Event} (he : e ∈ es) : e.snapshot.content.InRange :=
  hrange.recorded e.entityId e ((h.records.mem_history ..).mpr ⟨he, rfl⟩)

include hcount

/-- What an event of a service records is within bounds. -/
theorem inRange_snapshot {e : Event} (he : e ∈ es) : e.snapshot.InRange where
  content := h.content_inRange hrange he
  version := by
    obtain ⟨h1, hle⟩ := h.version_le he
    have hsound := (h.agreement.lives e.entityId).sound e (mem_trail.mpr ⟨he, rfl⟩)
    rw [hsound.version]
    split_ifs
    · exact isInt64_of_le hcount (by omega) (by omega)
    · exact isInt64_of_le hcount (by omega) hle

/-- **The events of a service are within bounds.** -/
theorem bounded {e : Event} (he : e ∈ es) : e.Bounded (FieldChange.Within 4) where
  version := by
    obtain ⟨h1, hle⟩ := h.version_le he
    exact isInt64_of_le hcount (by omega) hle
  sequence := by
    have hle := h.records.sequence_le he
    rw [← h.records.last] at hle
    have h64 : twoTo 63 < twoTo 64 := by decide
    exact Nat.lt_trans (Nat.lt_of_le_of_lt hle hcount) h64
  payload := by
    refine ⟨h.inRange_snapshot hrange hcount he, ?_⟩
    have hlife := h.agreement.lives e.entityId
    rcases hlife.changes_eq (mem_trail.mpr ⟨he, rfl⟩) with hnil | ⟨b, hb, hchanges⟩
    · rw [hnil]
      simp
    · rw [hchanges]
      exact fun c hc => FieldChange.within_changesTo
        (h.content_inRange hrange (mem_trail.mp hb).1) (h.content_inRange hrange he) hc

/-- A product that is shown is within bounds. -/
theorem inRange_live {id : String} {p : Product} (hp : s.live.get? id = some p) : p.InRange := by
  rw [h.live_eq] at hp
  obtain ⟨e, he, -, rfl, -⟩ := (h.agreement.lives id).version_of_current hp
  exact h.inRange_snapshot hrange hcount (mem_trail.mp he).1

/-- Pages of a service are within bounds. -/
theorem bounded_page (sequence limit : Nat) :
    (s.log.page sequence limit).Bounded (FieldChange.Within 4) := by
  have hmem : ∀ e ∈ (s.log.page sequence limit).events, e ∈ es := by
    intro e he
    unfold EventLog.page at he
    rw [h.records.after] at he
    exact List.mem_of_mem_filter (List.mem_of_mem_take he)
  refine ⟨fun e he => h.bounded hrange hcount (hmem e he), fun n hn => ?_⟩
  obtain ⟨e, he, rfl⟩ := Option.map_eq_some_iff.mp hn
  exact (h.bounded hrange hcount (hmem e (List.mem_of_getLast? he))).sequence

end Agrees

/-- **A product comes back from its encoding**, and so do its parts. -/
structure Product.Encodes (p : Product) : Prop where
  product : Product.codec.Returns p p.plain
  content : Content.codec.Returns p.content p.content.plain
  prices : ∀ x ∈ p.content.prices, Price.codec.Returns x x.plain
  variants : ∀ v ∈ p.content.variants, Variant.codec.Returns v v
  stock : ∀ v ∈ p.content.variants, ∀ x ∈ v.stock, Stock.codec.Returns x x
  listings : ∀ l ∈ p.content.listings, Listing.codec.Returns l l

theorem Product.InRange.encodes {p : Product} (h : p.InRange) : p.Encodes where
  product := Product.returns h
  content := Content.returns h.content
  prices x _ := x.returns
  variants v hv := Variant.returns (h.content v hv)
  stock v hv _ hx := Stock.returns (h.content v hv _ hx)
  listings l _ := l.returns

/-- **What a service has recorded and shows comes back from its encoding**: events, what they
record, products and pages of events, up to the sign of an amount of zero, and with the members of
every object in the values of changes in order, which leaves the changes the same. -/
structure Service.Encodes (s : Service) : Prop where
  event : ∀ e ∈ s.log.events, Event.codec.Returns e e.sorted.plain
  payload : ∀ e ∈ s.log.events, Payload.codec.Returns e.payload e.payload.sorted.plain
  change : ∀ e ∈ s.log.events, ∀ c ∈ e.payload.changes,
    FieldChange.codec.Returns c c.sorted ∧ c.Same c.sorted
  snapshot : ∀ e ∈ s.log.events, e.snapshot.Encodes
  live : ∀ id p, s.live.get? id = some p → p.Encodes
  page : ∀ sequence limit, EventPage.codec.Returns (s.log.page sequence limit)
    (s.log.page sequence limit).sorted.plain

theorem Agrees.encodes {es : List Event} {s : Service} (h : Agrees es s [])
    (hrange : s.Holds Content.InRange) (hcount : s.log.lastSequence < twoTo 63) : s.Encodes := by
  have hmono : ∀ {d : Nat}, 4 ≤ d → ∀ c : FieldChange, c.Within 4 → c.Within d :=
    fun hd c hc => hc.mono hd
  have hevents : s.log.events = es := h.records.events
  have hbounded : ∀ e ∈ s.log.events, e.Bounded (FieldChange.Within 4) := by
    rw [hevents]
    exact fun e he => h.bounded hrange hcount he
  refine ⟨fun e he => ?_, fun e he => ?_, fun e he c hc => ?_, fun e he => ?_, fun id p hp => ?_,
    fun sequence limit => ?_⟩
  · exact Event.returns ((hbounded e he).imp fun c _ => hmono (by decide) c)
  · exact Payload.returns ((hbounded e he).payload.imp fun c _ => hmono (by decide) c)
  · have hreturns :=
      FieldChange.returns (hmono (by decide) c ((hbounded e he).payload.changes c hc))
    exact ⟨hreturns, h.same_sorted_change (hevents ▸ he) hc⟩
  · exact (hbounded e he).payload.snapshot.encodes
  · exact (h.inRange_live hrange hcount hp).encodes
  · exact EventPage.returns
      ((h.bounded_page hrange hcount sequence limit).imp fun e _ c _ => hmono (by decide) c)

/-! ## Results of a service -/

theorem BatchResult.inRange_ofOutcome {request : Request} {outcome : Option Outcome}
    (h : ∀ e, outcome = some (.ok e) → IsInt64 e.version) :
    (ofOutcome request outcome).InRange := by
  cases outcome with
  | none => exact fun v hv => by cases hv
  | some outcome =>
    cases outcome with
    | error fault => exact fun v hv => by cases hv
    | ok e =>
      have hversion := h e rfl
      cases request <;>
      · intro v hv
        cases hv
        exact hversion

/-- **The results of every batch come back from their encoding**, as long as a log has fewer events
and a batch fewer writes than 64 bits can count. -/
def Deployment.EncodesBatches (σ : Supply) (d : Deployment) : Prop :=
  ∀ cancellation requests results d',
    d.performBatch? σ cancellation requests = some (results, d') →
    d'.service.log.lastSequence < twoTo 63 → IsLength requests.length →
    (∀ r ∈ results, BatchResult.codec.Returns r r) ∧
      BatchReport.codec.Returns (.ofResults results) (.ofResults results)

theorem Agrees.encodesBatches {es : List Event} {d : Deployment} (h : Agrees es d.service [])
    (σ : Supply) : d.EncodesBatches σ := by
  intro cancellation requests results d' hd hcount hlen
  obtain ⟨gs, hagrees⟩ := h.performBatch? hd
  unfold Deployment.performBatch? at hd
  split_ifs at hd
  cases hd
  have hplaces : 1 ≤ d.service.settings.places := Nat.le_max_left ..
  obtain ⟨fs, hperm, hannounces⟩ := h.performAll (σ := σ) cancellation hplaces requests
  have hevents : (d.performAll σ cancellation d.service.settings.places
      requests).2.service.log.events = es ++ gs := hagrees.records.events
  -- the event of every write that has succeeded is recorded, so its version is one of the log's
  have hversion : ∀ outcome ∈ (d.performAll σ cancellation d.service.settings.places requests).1,
      ∀ e, outcome = some (.ok e) → IsInt64 e.version := by
    rintro _ houtcome e rfl
    have hmem : e ∈ fs := hperm.symm.subset (List.mem_filterMap.mpr ⟨_, houtcome, rfl⟩)
    have hlog := List.mem_append_right d.service.log.events hmem
    rw [← hannounces.log, hevents] at hlog
    obtain ⟨h1, hle⟩ := hagrees.version_le hlog
    exact isInt64_of_le hcount (by omega) hle
  have hrange : ∀ r ∈ (d.performBatch σ cancellation requests).1, r.InRange := by
    intro r hr
    obtain ⟨i, hi, rfl⟩ := List.getElem_of_mem hr
    simp only [Deployment.performBatch, List.getElem_zipWith]
    exact BatchResult.inRange_ofOutcome (hversion _ (List.getElem_mem _))
  have hresults : IsLength (d.performBatch σ cancellation requests).1.length := by
    refine Nat.lt_of_le_of_lt ?_ hlen
    simp only [Deployment.performBatch, List.length_zipWith]
    exact Nat.min_le_left _ _
  exact ⟨fun r hr => BatchResult.returns (hrange r hr),
    BatchReport.returns (BatchReport.inRange_ofResults hrange hresults)⟩

/-! ## Runs -/

/-- **Nothing is lost in JSON.**  Whatever is decoded from a text, and whatever a deployment has
recorded, shows and answers behind any run, comes back when its encoding is decoded. -/
theorem Deployment.lossless_run (σ : Supply) (settings : WriteSettings) (feed : Feed)
    {ops : List Operation} (h : ∀ op ∈ ops, ∀ r ∈ op.requests, r.Offers Content.InRange)
    (hcount : ((fresh settings feed).run σ ops).service.log.lastSequence < twoTo 63) :
    Decodes ∧ ((fresh settings feed).run σ ops).service.Encodes ∧
      ((fresh settings feed).run σ ops).EncodesBatches σ := by
  have hfresh : (fresh settings feed).service.Holds Content.InRange := .fresh settings feed
  have hrange := (holds_invariant σ Content.InRange).run hfresh fun op hop r hr =>
    ⟨h op hop r hr, trivial⟩
  obtain ⟨es, hagrees⟩ := agrees_run σ settings feed ops
  exact ⟨decodes, hagrees.encodes hrange hcount, hagrees.encodesBatches σ⟩

theorem Deployment.lossless_sample :
    (∀ op ∈ Operation.sample, ∀ r ∈ op.requests, r.Offers Content.InRange) ∧
      ((fresh {} default).run .sample Operation.sample).service.log.lastSequence = 3 ∧
      ((fresh {} default).run .sample Operation.sample).service.Encodes := by
  have hoffers : ∀ op ∈ Operation.sample, ∀ r ∈ op.requests, r.Offers Content.InRange := by
    simp only [Operation.sample, List.forall_mem_cons, Operation.requests, Request.Offers]
    exact ⟨⟨by decide, by simp⟩, ⟨by decide, by simp⟩, ⟨trivial, by simp⟩, by simp⟩
  have hcount : ((fresh {} default).run .sample Operation.sample).service.log.lastSequence = 3 := by
    decide +kernel
  refine ⟨hoffers, hcount, (lossless_run .sample {} default hoffers ?_).2.1⟩
  rw [hcount]
  decide

/-! ## What is lost -/

/-- The price of the text `-0.4e-28`, which is rounded to a zero that keeps its sign. -/
def Price.negativeZero : Price :=
  ⟨"SEK", { Decimal.zero with negative := true, scale := 28, scale_le := Nat.le_refl 28 }⟩

/-- **The sign of an amount of zero is lost.**  It is read from an exponent that rounds to zero, and
written, but not read again. -/
theorem Price.not_returns_negativeZero :
    codec.decode? "\x7b\"currency\":\"SEK\",\"amount\":\"-0.4e-28\"\x7d" = some negativeZero ∧
      codec.encode negativeZero =
        "\x7b\"currency\":\"SEK\",\"amount\":\"-0.0000000000000000000000000000\"\x7d" ∧
      ¬ codec.Returns negativeZero negativeZero := by
  -- the text is that of an object, whose fields can be read
  have htext : (Json.object [("currency", .string "SEK"), ("amount", .string "-0.4e-28")]).text =
      "\x7b\"currency\":\"SEK\",\"amount\":\"-0.4e-28\"\x7d" := by decide +kernel
  have hamount : Decimal.read (ofJson (.string "-0.4e-28")) = .ok negativeZero.amount := by
    have hread : Decimal.read? "-0.4e-28" = some negativeZero.amount := by decide +kernel
    rw [ofJson, Decimal.read, hread]
    rfl
  have hread : Price.read (ofJson (.object [("currency", .string "SEK"),
      ("amount", .string "-0.4e-28")])) = .ok negativeZero := by
    refine readRecord_object (by simp [names]) (by simp [Entries.keys]) ?_
    refine Fields.seq_eq_ok ?_ (field_given rfl hamount)
    exact Fields.map_eq_ok _ (field_given rfl (readText_string "SEK"))
  refine ⟨?_, by decide +kernel, fun hreturns => ?_⟩
  · rw [← htext]
    refine Codec.decode?_eq_some_iff.mpr ⟨_, readWhole?_text fun n hn => ?_, hread⟩
    cases hn
  · have heq := hreturns.symm.trans negativeZero.returns
    exact absurd (Option.some.inj heq) (by decide)

end CatalogChain
