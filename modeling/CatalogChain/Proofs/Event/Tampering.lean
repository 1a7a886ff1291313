import CatalogChain.Proofs.Event.Linked
import CatalogChain.Proofs.Product.Canonical
import Mathlib.Data.List.FinRange
import Mathlib.Data.List.Perm.Basic

/-!
# Tampering with a chain

What the check of a chain notices of later edits, and what it does not.

* Of a linked list whose snapshots carry their own fingerprints it rejects every edit that takes an
  event out of the middle, repeats one, changes the order, moves one event to another product,
  changes a link, or replaces a snapshot that has a successor (`Chain.DetectsEdits`).  The first
  four show in versions and products alone; a new link contradicts the fingerprint before it; and a
  new snapshot has another fingerprint, so that the next event does not fit any more
  (`Product.alike_of_fingerprint_eq`).
* The check compares recorded fingerprints and computes none.  Events that agree in what it looks at
  (`Event.Resembles`) are all the same to it (`Chain.check_congr`), whatever else their snapshots say.
-/

namespace CatalogChain

/-! ## Fingerprints -/

/-- **The digest tells two messages apart.** -/
def Sha256.Separates (a b : List UInt8) : Prop := hex a = hex b → a = b

/-- **Products alike** in all that their fingerprints cover: amounts count by value. -/
def Product.Alike (p q : Product) : Prop :=
  p.id = q.id ∧ p.version = q.version ∧ p.content.same q.content = true

instance (p q : Product) : Decidable (p.Alike q) := inferInstanceAs (Decidable (_ ∧ _ ∧ _))

theorem Product.hasValidFingerprint_iff {p : Product} :
    p.hasValidFingerprint = true ↔ p.fingerprint = Sha256.hex p.canonicalBytes := decide_eq_true_iff

/-- **Products with one fingerprint are alike**, if it is the one that belongs to them. -/
theorem Product.alike_of_fingerprint_eq {p q : Product} (hp : p.Countable) (hq : q.Countable)
    (hpv : p.hasValidFingerprint = true) (hqv : q.hasValidFingerprint = true)
    (hsep : Sha256.Separates p.canonicalBytes q.canonicalBytes)
    (h : p.fingerprint = q.fingerprint) : p.Alike q := by
  rw [hasValidFingerprint_iff] at hpv hqv
  have hbytes : p.canonicalBytes = q.canonicalBytes := hsep (by rw [← hpv, ← hqv, h])
  exact ((unambiguous_canonicalBytes hp hq [] []).mp (by rw [hbytes])).1

/-- The digest tells apart where the stock of the sample is. -/
example : Sha256.hex (Product.sample 899 0 "wh-1").canonicalBytes ≠
    Sha256.hex (Product.sample 899 0 "wh-2").canonicalBytes := by
  decide +kernel

theorem Product.fingerprint_ne_empty {p : Product} (h : p.hasValidFingerprint = true) :
    p.fingerprint ≠ "" := by
  rw [hasValidFingerprint_iff] at h
  rw [h]
  exact p.computeFingerprint_ne_empty

/-! ## Edits of one event -/

/-- A payload with another snapshot. -/
def Payload.withSnapshot (snapshot : Product) : Payload → Payload
  | created _ => created snapshot
  | updated _ previous changes => updated snapshot previous changes
  | deleted _ previous => deleted snapshot previous

/-- A payload with another link; a creation has none. -/
def Payload.withPrevious (previous : String) : Payload → Payload
  | created snapshot => created snapshot
  | updated snapshot _ changes => updated snapshot previous changes
  | deleted snapshot _ => deleted snapshot previous

namespace Event

variable (e : Event)

/-- An event with another snapshot. -/
def withSnapshot (p : Product) : Event := { e with payload := e.payload.withSnapshot p }

/-- An event with another link. -/
def withPrevious (previous : String) : Event :=
  { e with payload := e.payload.withPrevious previous }

@[simp] theorem snapshot_withSnapshot (p : Product) : (e.withSnapshot p).snapshot = p := by
  unfold withSnapshot snapshot
  cases e.payload <;> rfl

@[simp] theorem previous_withSnapshot (p : Product) :
    (e.withSnapshot p).previous = e.previous := by
  unfold withSnapshot previous
  cases e.payload <;> rfl

@[simp] theorem isCreation_withSnapshot (p : Product) :
    (e.withSnapshot p).payload.isCreation = e.payload.isCreation := by
  unfold withSnapshot
  cases e.payload <;> rfl

variable {e}

/-- An event that has a link is no creation, so the link can be changed. -/
theorem previous_withPrevious (h : e.previous ≠ "") (previous : String) :
    (e.withPrevious previous).previous = previous := by
  unfold withPrevious Event.previous at *
  cases hp : e.payload with
  | created p =>
    rw [hp] at h
    exact absurd rfl h
  | updated | deleted => rfl

end Event

/-! ## What the check looks at -/

/-- **Events that are the same to the check of a chain.** -/
structure Event.Resembles (a b : Event) : Prop where
  entity : a.entityId = b.entityId
  version : a.version = b.version
  creation : a.payload.isCreation = b.payload.isCreation
  previous : a.previous = b.previous
  fingerprint : a.snapshot.fingerprint = b.snapshot.fingerprint

theorem Event.Resembles.refl (e : Event) : e.Resembles e := ⟨rfl, rfl, rfl, rfl, rfl⟩

/-- Whatever stands in a snapshot under the same fingerprint. -/
theorem Event.Resembles.withSnapshot {e : Event} {p : Product}
    (h : p.fingerprint = e.snapshot.fingerprint) : (e.withSnapshot p).Resembles e :=
  ⟨rfl, rfl, e.isCreation_withSnapshot p, e.previous_withSnapshot p,
    by rw [e.snapshot_withSnapshot, h]⟩

namespace Chain

theorem checkFrom_congr {id : String} {a b : Event} {es fs : List Event} (hab : a.Resembles b)
    (h : List.Forall₂ Event.Resembles es fs) : checkFrom id a es = checkFrom id b fs := by
  induction h generalizing a b with
  | nil => rfl
  | @cons e f es fs hef h ih =>
    unfold checkFrom breakAt
    rw [hef.entity, hef.version, hef.previous, hab.version, hab.fingerprint, ih hef]

/-- **The check answers alike on lists of events that are the same to it.** -/
theorem check_congr {es fs : List Event} (h : List.Forall₂ Event.Resembles es fs) :
    check es = check fs := by
  cases h with
  | nil => rfl
  | @cons e f es fs hef h =>
    unfold check breakAt
    simp only [hef.entity, hef.version, hef.creation, hef.previous, checkFrom_congr hef h]

/-! ## Edits that are noticed -/

/-- The last event may have another snapshot. -/
theorem Linked.withSnapshot {xs : List Event} {a : Event} (h : Linked (xs ++ [a])) (p : Product) :
    Linked (xs ++ [a.withSnapshot p]) := by
  have hprevious := a.previous_withSnapshot p
  cases xs with
  | nil =>
    have hanchored := (linked_cons_iff.mp h).1
    refine linked_cons_iff.mpr ⟨?_, List.isChain_singleton _⟩
    unfold Anchored
    rw [hprevious, a.isCreation_withSnapshot]
    exact hanchored
  | cons e xs =>
    rw [List.cons_append, linked_cons_iff, ← List.cons_append, List.isChain_append] at h ⊢
    obtain ⟨hanchored, hxs, -, hlast⟩ := h
    refine ⟨hanchored, hxs, List.isChain_singleton _, fun b hb y hy => ?_⟩
    obtain rfl := Option.mem_some_iff.mp hy
    have hfollows := hlast b hb a rfl
    exact ⟨hfollows.entity, hfollows.version, hprevious.trans hfollows.link⟩

/-- **A list that gives away its edits.** -/
structure DetectsEdits (es : List Event) : Prop where
  /-- An event is taken out of the middle. -/
  removal : ∀ i, 0 < i → i + 1 < es.length → Rejects (es.eraseIdx i)
  /-- An event stands at one more place. -/
  repetition : ∀ i k, (h : i < es.length) → k ≤ es.length → Rejects (es.insertIdx k es[i])
  /-- The events stand in another order. -/
  reordering : ∀ π : Equiv.Perm (Fin es.length), π ≠ Equiv.refl _ →
    Rejects (List.ofFn fun i => es[π i])
  /-- One of several events is given to another product. -/
  entity : ∀ i id, (h : i < es.length) → 2 ≤ es.length → id ≠ es[i].entityId →
    Rejects (es.set i { es[i] with entityId := id })
  /-- An event behind another one gets another link. -/
  link : ∀ i previous, (h : i < es.length) → 0 < i → previous ≠ es[i].previous →
    Rejects (es.set i (es[i].withPrevious previous))
  /-- An event in front of another one gets another snapshot, sealed by its own fingerprint. -/
  snapshot : ∀ i p a b, es[i]? = some a → es[i + 1]? = some b →
    p.Countable → a.snapshot.Countable → p.hasValidFingerprint = true → ¬ p.Alike a.snapshot →
    Sha256.Separates p.canonicalBytes a.snapshot.canonicalBytes →
    check (es.set i (a.withSnapshot p)) =
      .error ⟨b.entityId, a.version, b.version, .unlinked b.previous p.fingerprint⟩

section Edits
variable {es : List Event} (h : Linked es)
include h

theorem rejects_eraseIdx {i : Nat} (hpos : 0 < i) (hi : i + 1 < es.length) :
    Rejects (es.eraseIdx i) := by
  refine rejects_iff.mpr fun hlinked => ?_
  have hlen : (es.eraseIdx i).length = es.length - 1 := List.length_eraseIdx_of_lt (by omega)
  have hi' : i < (es.eraseIdx i).length := by omega
  -- the versions of the neighbours of the gap are two apart
  have hgap := hlinked.version_getElem hi'
  rw [List.getElem_eraseIdx_of_ge hi' (Nat.le_refl i),
    List.getElem_eraseIdx_of_lt (Nat.zero_lt_of_lt hi') hpos, h.version_getElem hi] at hgap
  omega

omit h in
theorem rejects_insertIdx {i k : Nat} (hi : i < es.length) (hk : k ≤ es.length) :
    Rejects (es.insertIdx k es[i]) := by
  refine rejects_iff.mpr fun hlinked => ?_
  have hnodup := (List.perm_insertIdx es[i] es hk).nodup_iff.mp hlinked.nodup
  exact (List.nodup_cons.mp hnodup).1 (List.getElem_mem hi)

theorem rejects_ofFn {π : Equiv.Perm (Fin es.length)} (hπ : π ≠ Equiv.refl _) :
    Rejects (List.ofFn fun i => es[π i]) := by
  refine rejects_iff.mpr fun hlinked => hπ ?_
  have hperm : (List.ofFn fun i => es[π i]).Perm (List.ofFn fun i : Fin es.length => es[i.val]) :=
    π.ofFn_comp_perm fun i => es[i.val]
  rw [List.ofFn_getElem] at hperm
  have heq := h.eq_of_perm hlinked hperm
  refine Equiv.ext fun i => Fin.ext (h.index_eq (π i).isLt i.isLt ?_)
  have hget : (List.ofFn fun i => es[π i])[i.val]? = es[i.val]? := by rw [heq]
  rw [List.getElem?_ofFn, dif_pos i.isLt, List.getElem?_eq_getElem i.isLt] at hget
  exact congrArg Event.version (Option.some.inj hget)

theorem rejects_set_entity {i : Nat} {id : String} (hi : i < es.length) (htwo : 2 ≤ es.length)
    (hid : id ≠ es[i].entityId) : Rejects (es.set i { es[i] with entityId := id }) := by
  refine rejects_iff.mpr fun hlinked => hid ?_
  -- another event tells which product the list is about
  obtain ⟨j, hj, hne⟩ : ∃ j, j < es.length ∧ i ≠ j := by
    by_cases h0 : i = 0
    · exact ⟨1, by omega, by omega⟩
    · exact ⟨0, by omega, h0⟩
  have hlen : (es.set i { es[i] with entityId := id }).length = es.length := List.length_set
  have hat := hlinked.entity_getElem (i := i) (by omega)
  have hother := hlinked.entity_getElem (i := j) (by omega)
  rw [List.getElem_set_self] at hat
  rw [List.getElem_set_ne hne] at hother
  rw [h.entity_getElem hi, ← h.entity_getElem hj, hother, ← hat]

theorem rejects_set_link (hvalid : ∀ e ∈ es, e.snapshot.hasValidFingerprint = true) {i : Nat}
    {previous : String} (hi : i < es.length) (hpos : 0 < i) (hne : previous ≠ es[i].previous) :
    Rejects (es.set i (es[i].withPrevious previous)) := by
  refine rejects_iff.mpr fun hlinked => hne ?_
  obtain ⟨j, rfl⟩ := Nat.exists_eq_succ_of_ne_zero (Nat.ne_of_gt hpos)
  have hj : j < es.length := Nat.lt_of_succ_lt hi
  have hold : es[j + 1].previous = es[j].snapshot.fingerprint := (h.follows j hi).link
  -- the old link is a fingerprint, so the event is no creation
  have hlink : es[j + 1].previous ≠ "" := by
    rw [hold]
    exact Product.fingerprint_ne_empty (hvalid _ (List.getElem_mem hj))
  have hnew := (hlinked.follows j (by rw [List.length_set]; exact hi)).link
  rw [List.getElem_set_self, List.getElem_set_ne (by omega),
    Event.previous_withPrevious hlink] at hnew
  exact hnew.trans hold.symm

theorem check_set_snapshot {i : Nat} {p : Product} {a b : Event} (ha : es[i]? = some a)
    (hb : es[i + 1]? = some b) (hne : p.fingerprint ≠ a.snapshot.fingerprint) :
    check (es.set i (a.withSnapshot p)) =
      .error ⟨b.entityId, a.version, b.version, .unlinked b.previous p.fingerprint⟩ := by
  obtain ⟨hi', rfl⟩ := List.getElem?_eq_some_iff.mp ha
  obtain ⟨hi, rfl⟩ := List.getElem?_eq_some_iff.mp hb
  have hfollows := h.follows i hi
  have hentity : es[i + 1].entityId = (es[i].withSnapshot p).entityId :=
    (h.entity_getElem hi).trans (h.entity_getElem hi').symm
  have hversion : es[i + 1].version = (es[i].withSnapshot p).version + 1 := hfollows.version
  have hlink : es[i + 1].previous ≠ p.fingerprint := by
    rw [hfollows.link]
    exact hne.symm
  -- up to the new snapshot everything fits as before
  have hparts : Linked ((es.take i ++ [es[i]]) ++ es.drop (i + 1)) := by
    rwa [List.append_assoc, List.singleton_append, ← List.drop_eq_getElem_cons hi',
      List.take_append_drop]
  have hpart := hparts.left
  rw [List.set_eq_take_append_cons_drop, if_pos hi', check_append (hpart.withSnapshot p),
    List.drop_eq_getElem_cons hi, checkFrom, if_neg (not_not.mpr hentity),
    if_neg (not_not.mpr hversion), Event.snapshot_withSnapshot, if_pos hlink]
  rfl

end Edits

/-- **A chain gives away its edits**, if all of its snapshots carry their own fingerprints. -/
theorem detectsEdits {es : List Event} (h : check es = .ok ())
    (hvalid : ∀ e ∈ es, e.snapshot.hasValidFingerprint = true) : DetectsEdits es := by
  have hlinked := check_eq_ok_iff.mp h
  constructor
  case removal => exact fun i hpos hi => rejects_eraseIdx hlinked hpos hi
  case repetition => exact fun i k hi hk => rejects_insertIdx hi hk
  case reordering => exact fun π hπ => rejects_ofFn hlinked hπ
  case entity => exact fun i id hi htwo hid => rejects_set_entity hlinked hi htwo hid
  case link => exact fun i previous hi hpos hne => rejects_set_link hlinked hvalid hi hpos hne
  case snapshot =>
    intro i p a b ha hb hp hcount hpv hne hsep
    have hav := hvalid a (List.mem_of_getElem? ha)
    refine check_set_snapshot hlinked ha hb fun heq => hne ?_
    exact Product.alike_of_fingerprint_eq hp hcount hpv hav hsep heq

/-- A product is created, gets another title, and is deleted. -/
def sample : List Event :=
  let first := (Product.sample 899 0 "wh-1").sealed
  let next := { first with content := { first.content with title := "Pullover" } }.bump
  [.created .nil .epoch first,
    .updated .nil .epoch next first.fingerprint (first.content.changesTo next.content),
    .deleted .nil .epoch next]

theorem linked_sample : Linked sample := by
  rw [sample, linked_cons_iff]
  refine ⟨.inl rfl, ?_⟩
  exact .cons_cons ⟨rfl, rfl, rfl⟩ (.cons_cons ⟨rfl, rfl, rfl⟩ (.singleton _))

theorem hasValidFingerprint_of_mem_sample : ∀ e ∈ sample, e.snapshot.hasValidFingerprint = true := by
  intro e he
  simp only [sample, List.mem_cons, List.not_mem_nil, or_false] at he
  rcases he with rfl | rfl | rfl <;> exact Product.hasValidFingerprint_sealed _

/-- The sample is rejected without its update, and with its deletion given to another product. -/
theorem detectsEdits_sample :
    check sample = .ok () ∧ (∀ e ∈ sample, e.snapshot.hasValidFingerprint = true) ∧
      Rejects (sample.eraseIdx 1) ∧
      Rejects (sample.set 2 { sample[2] with entityId := "prod_2" }) := by
  have hok := check_eq_ok_iff.mpr linked_sample
  have hvalid := hasValidFingerprint_of_mem_sample
  have hdetects := detectsEdits hok hvalid
  exact ⟨hok, hvalid, hdetects.removal 1 (by decide) (by decide),
    hdetects.entity 2 "prod_2" (by decide) (by decide) (by decide)⟩

end Chain

end CatalogChain
