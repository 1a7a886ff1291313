import CatalogChain.Event.Chain
import CatalogChain.Product.Validation
import Mathlib.Data.List.Chain

/-!
# The life of a product

The events of a product tell its life: it is created, updated any number of times, and perhaps
deleted, and nothing comes behind its deletion.  `Life id es` says so of a list of events, together
with what every single event records (`Event.Sound`) and how it is linked to the one before
(`Event.Succeeds`).  A life grows at its end only (`Life.snoc`), and its versions count its events
(`Life.version_getElem`), so an event fits into a life in one place only
(`Life.getLast?_of_version`).  The instant of the creation stays the same all along
(`Life.createdAt_eq`).

* `current`: the product as a list of events leaves it, if it is not deleted;
* `Life.check_suffix`: every end of a life is a chain;
* `Chronicle`: what a life says event by event.
-/

namespace CatalogChain

/-- **A sound event** of a product: the product as recorded passes all checks, carries its own
fingerprint, and has the version of the event, or the version before if it is recorded for the last
time. -/
structure Event.Sound (id : String) (e : Event) : Prop where
  entity : e.entityId = id
  snapshot_id : e.snapshot.id = id
  valid : e.snapshot.validate = .ok ()
  genuine : e.snapshot.fingerprint = e.snapshot.computeFingerprint
  version : e.snapshot.version = if e.kind = .deleted then e.version - 1 else e.version

/-- **An event that goes on with the life of a product** behind another one. -/
structure Event.Succeeds (id : String) (before e : Event) : Prop
    extends Chain.Follows id before e where
  alive : before.kind ≠ .deleted
  later : e.kind ≠ .created
  tombstone : e.kind = .deleted → e.snapshot = before.snapshot
  difference : e.kind = .updated →
    e.payload.changes = before.snapshot.content.changesTo e.snapshot.content
  origin : e.snapshot.createdAt = before.snapshot.createdAt

/-- **An event that begins the life of a product.** -/
def Event.Begins (e : Event) : Prop := e.kind = .created ∧ e.version = 1

/-- **The life of a product**, or a beginning of it. -/
structure Life (id : String) (es : List Event) : Prop where
  sound : ∀ e ∈ es, e.Sound id
  birth : ∀ e ∈ es.head?, e.Begins
  chain : es.IsChain (Event.Succeeds id)

/-- The product as a list of its events leaves it. -/
def current (es : List Event) : Option Product :=
  match es.getLast? with
  | some e => if e.kind = .deleted then none else some e.snapshot
  | none => none

@[simp] theorem current_append (es : List Event) (e : Event) :
    current (es ++ [e]) = if e.kind = .deleted then none else some e.snapshot := by
  rw [current, List.getLast?_append, List.getLast?_singleton, Option.some_or]

theorem current_eq_some_iff {es : List Event} {p : Product} :
    current es = some p ↔ ∃ e, es.getLast? = some e ∧ e.kind ≠ .deleted ∧ e.snapshot = p := by
  unfold current
  cases es.getLast? with
  | none => simp
  | some e =>
    by_cases hk : e.kind = .deleted
    · simp [hk]
    · simp [hk]

theorem current_eq_none_iff {es : List Event} :
    current es = none ↔ es = [] ∨ ∃ e, es.getLast? = some e ∧ e.kind = .deleted := by
  unfold current
  cases hl : es.getLast? with
  | none => simp [List.getLast?_eq_none_iff.mp hl]
  | some e =>
    have hne : es ≠ [] := by
      intro h
      rw [h] at hl
      cases hl
    by_cases hk : e.kind = .deleted
    · simp [hk]
    · simp [hk, hne]

/-! ## Growth -/

theorem life_nil (id : String) : Life id [] := ⟨by simp, by simp, by simp⟩

namespace Life

variable {id : String} {es : List Event}

/-- **A life grows by one event**, which begins it or goes on behind the last one. -/
theorem snoc (h : Life id es) {e : Event} (hs : e.Sound id) (hb : es = [] → e.Begins)
    (hl : ∀ b ∈ es.getLast?, Event.Succeeds id b e) : Life id (es ++ [e]) where
  sound a ha := by
    rcases List.mem_append.mp ha with ha | ha
    · exact h.sound a ha
    · rw [List.mem_singleton.mp ha]
      exact hs
  birth a ha := by
    cases es with
    | nil =>
      rw [List.nil_append, List.head?_cons, Option.mem_some_iff] at ha
      rw [← ha]
      exact hb rfl
    | cons b es => exact h.birth a ha
  chain := by
    refine List.isChain_append.mpr ⟨h.chain, List.isChain_singleton e, fun b hb' a ha => ?_⟩
    rw [List.head?_cons, Option.mem_some_iff] at ha
    rw [← ha]
    exact hl b hb'

theorem left (es fs : List Event) (h : Life id (es ++ fs)) : Life id es where
  sound e he := h.sound e (List.mem_append_left fs he)
  birth e he := by
    cases es with
    | nil => cases he
    | cons a es => exact h.birth e he
  chain := (List.isChain_append.mp h.chain).1

/-- **The last event** begins the life, or goes on behind the one before it. -/
theorem last_cases {e : Event} (h : Life id (es ++ [e])) :
    es = [] ∧ e.Begins ∨ ∃ b, es.getLast? = some b ∧ Event.Succeeds id b e := by
  cases hl : es.getLast? with
  | none =>
    obtain rfl := List.getLast?_eq_none_iff.mp hl
    exact .inl ⟨rfl, h.birth e rfl⟩
  | some b => exact .inr ⟨b, rfl, (List.isChain_append.mp h.chain).2.2 b hl e rfl⟩

/-! ## Versions -/

theorem succeeds_getElem (h : Life id es) {i : Nat} (hi : i < es.length)
    (hi' : i + 1 < es.length) : Event.Succeeds id es[i] es[i + 1] :=
  List.isChain_iff_getElem.mp h.chain i hi'

theorem begins_getElem (h : Life id es) (hi : 0 < es.length) : es[0].Begins := by
  refine h.birth es[0] ?_
  rw [List.head?_eq_getElem?, List.getElem?_eq_getElem hi]
  rfl

/-- The versions of a life count its events. -/
theorem version_getElem (h : Life id es) {i : Nat} (hi : i < es.length) :
    es[i].version = i + 1 := by
  induction i with
  | zero => exact (h.begins_getElem hi).2
  | succ i ih =>
    have hi' := Nat.lt_of_succ_lt hi
    have hv := (h.succeeds_getElem hi' hi).version
    rw [ih hi'] at hv
    rw [hv]
    rfl

theorem version_bounds (h : Life id es) {e : Event} (he : e ∈ es) :
    1 ≤ e.version ∧ e.version ≤ es.length := by
  obtain ⟨i, hi, rfl⟩ := List.getElem_of_mem he
  rw [h.version_getElem hi]
  omega

theorem ascending (h : Life id es) : es.Pairwise fun a b => a.version < b.version := by
  rw [List.pairwise_iff_getElem]
  intro i j hi hj hij
  rw [h.version_getElem hi, h.version_getElem hj]
  omega

theorem exists_version (h : Life id es) {v : Int} (h1 : 1 ≤ v) (h2 : v ≤ es.length) :
    ∃ e ∈ es, e.version = v := by
  have hi : (v - 1).toNat < es.length := by omega
  refine ⟨es[(v - 1).toNat], List.getElem_mem hi, ?_⟩
  rw [h.version_getElem hi]
  omega

/-- The event with the highest version is the last one. -/
theorem getLast?_of_version (h : Life id es) {e : Event} (he : e ∈ es)
    (hv : e.version = es.length) : es.getLast? = some e := by
  obtain ⟨i, hi, rfl⟩ := List.getElem_of_mem he
  rw [h.version_getElem hi] at hv
  rw [List.getLast?_eq_getElem?, show es.length - 1 = i by omega, List.getElem?_eq_getElem hi]

theorem version_of_getLast? (h : Life id es) {e : Event} (hl : es.getLast? = some e) :
    e.version = es.length := by
  have hne : es ≠ [] := by
    intro hnil
    rw [hnil] at hl
    cases hl
  have hpos := List.length_pos_iff.mpr hne
  have hi : es.length - 1 < es.length := by omega
  rw [List.getLast?_eq_getElem?, List.getElem?_eq_getElem hi] at hl
  rw [← Option.some.inj hl, h.version_getElem hi]
  omega

/-- An event with a successor is no deletion. -/
theorem alive_of_lt (h : Life id es) {e : Event} (he : e ∈ es) (hv : e.version < es.length) :
    e.kind ≠ .deleted := by
  obtain ⟨i, hi, rfl⟩ := List.getElem_of_mem he
  rw [h.version_getElem hi] at hv
  exact (h.succeeds_getElem hi (by omega)).alive

theorem begins_or_later (h : Life id es) {i : Nat} (hi : i < es.length) :
    i = 0 ∧ es[i].Begins ∨ es[i].kind ≠ .created ∧ ∃ b ∈ es, Chain.Follows id b es[i] := by
  cases i with
  | zero => exact .inl ⟨rfl, h.begins_getElem hi⟩
  | succ i =>
    have hs := h.succeeds_getElem (Nat.lt_of_succ_lt hi) hi
    exact .inr ⟨hs.later, es[i], List.getElem_mem _, hs.toFollows⟩

/-- **A product keeps the instant of its creation** through all of its life. -/
theorem createdAt_eq (h : Life id es) {a b : Event} (ha : a ∈ es) (hb : b ∈ es) :
    a.snapshot.createdAt = b.snapshot.createdAt := by
  have hfirst : ∀ i, (hi : i < es.length) →
      es[i].snapshot.createdAt = es[0].snapshot.createdAt := by
    intro i hi
    induction i with
    | zero => rfl
    | succ i ih =>
      have hi' := Nat.lt_of_succ_lt hi
      exact (h.succeeds_getElem hi' hi).origin.trans (ih hi')
  obtain ⟨i, hi, rfl⟩ := List.getElem_of_mem ha
  obtain ⟨j, hj, rfl⟩ := List.getElem_of_mem hb
  exact (hfirst i hi).trans (hfirst j hj).symm

/-- A product that is there is the one that its last event records. -/
theorem version_of_current (h : Life id es) {p : Product} (hp : current es = some p) :
    ∃ e ∈ es, e.kind ≠ .deleted ∧ e.snapshot = p ∧ e.version = es.length ∧
      p.version = es.length := by
  obtain ⟨e, hl, hk, rfl⟩ := current_eq_some_iff.mp hp
  have he := List.mem_of_getLast? hl
  have hv := h.version_of_getLast? hl
  refine ⟨e, he, hk, rfl, hv, ?_⟩
  rw [(h.sound e he).version, if_neg hk, hv]

theorem id_of_current (h : Life id es) {p : Product} (hp : current es = some p) : p.id = id := by
  obtain ⟨e, he, -, rfl, -⟩ := h.version_of_current hp
  exact (h.sound e he).snapshot_id

end Life

/-! ## Chains -/

namespace Chain

/-- The check behind an event succeeds exactly if each event follows its neighbour. -/
theorem checkFrom_eq_ok_iff {id : String} {b : Event} {es : List Event} :
    checkFrom id b es = .ok () ↔ (b :: es).IsChain (Follows id) := by
  induction es generalizing b with
  | nil => simp [checkFrom]
  | cons e es ih =>
    rw [List.isChain_cons_cons]
    unfold checkFrom breakAt
    constructor
    · intro h
      split_ifs at h with h1 h2 h3
      exact ⟨⟨not_not.mp h1, not_not.mp h2, not_not.mp h3⟩, ih.mp h⟩
    · rintro ⟨hf, hc⟩
      rw [if_neg (not_not.mpr hf.entity), if_neg (not_not.mpr hf.version),
        if_neg (not_not.mpr hf.link)]
      exact ih.mpr hc

end Chain

theorem Product.computeFingerprint_ne_empty (p : Product) : p.computeFingerprint ≠ "" := by
  intro h
  have hlen := Sha256.length_hex p.canonicalBytes
  rw [show Sha256.hex p.canonicalBytes = "" from h] at hlen
  cases hlen

/-- **Every end of a life is a chain.** -/
theorem Life.check_suffix {id : String} {es ss : List Event} (h : Life id es) (hs : ss <:+ es) :
    Chain.check ss = .ok () := by
  cases ss with
  | nil => rfl
  | cons e ss =>
    have he : e ∈ es := hs.subset (List.mem_cons_self ..)
    have hid : e.entityId = id := (h.sound e he).entity
    have hchain : Chain.checkFrom e.entityId e ss = .ok () := by
      rw [Chain.checkFrom_eq_ok_iff, hid]
      exact (h.chain.suffix hs).imp fun _ _ hab => hab.toFollows
    refine (if_neg ?_).trans hchain
    · -- the first event begins the life or is linked to the one before it
      rintro ⟨hc, hp⟩
      obtain ⟨i, hi, rfl⟩ := List.getElem_of_mem he
      rcases h.begins_or_later hi with ⟨-, hb⟩ | ⟨-, b, hb, hf⟩
      · exact hc (decide_eq_true hb.1)
      · rw [hf.link, (h.sound b hb).genuine] at hp
        exact b.snapshot.computeFingerprint_ne_empty hp

/-! ## Event by event -/

/-- **What the events of a product tell**, from the first to the last. -/
structure Chronicle (id : String) (es : List Event) : Prop where
  entity : ∀ e ∈ es, e.entityId = id
  version : ∀ i, (h : i < es.length) → es[i].version = i + 1
  first : ∀ h : 0 < es.length, es[0].kind = .created
  later : ∀ i, 0 < i → (h : i < es.length) →
    es[i].kind = .updated ∨ es[i].kind = .deleted ∧ i + 1 = es.length
  snapshot_id : ∀ e ∈ es, e.snapshot.id = id
  valid : ∀ e ∈ es, e.snapshot.validate = .ok ()
  genuine : ∀ e ∈ es, e.snapshot.fingerprint = e.snapshot.computeFingerprint
  snapshot_version : ∀ e ∈ es, e.kind ≠ .deleted → e.snapshot.version = e.version
  tombstone : ∀ i, (h : i < es.length) → (h' : i + 1 < es.length) → es[i + 1].kind = .deleted →
    es[i + 1].snapshot = es[i].snapshot ∧ es[i + 1].snapshot.version = es[i + 1].version - 1
  link : ∀ i, (h : i < es.length) → (h' : i + 1 < es.length) →
    es[i + 1].previous = es[i].snapshot.fingerprint

theorem Life.chronicle {id : String} {es : List Event} (h : Life id es) : Chronicle id es where
  entity e he := (h.sound e he).entity
  version _ hi := h.version_getElem hi
  first hi := (h.begins_getElem hi).1
  later i hpos hi := by
    have hlater : es[i].kind ≠ .created := by
      rcases h.begins_or_later hi with ⟨h0, -⟩ | ⟨hl, -⟩
      · omega
      · exact hl
    cases hk : es[i].kind with
    | created => exact absurd hk hlater
    | updated => exact .inl rfl
    | deleted =>
      refine .inr ⟨rfl, ?_⟩
      by_contra hne
      exact h.alive_of_lt (List.getElem_mem hi) (by rw [h.version_getElem hi]; omega) hk
  snapshot_id e he := (h.sound e he).snapshot_id
  valid e he := (h.sound e he).valid
  genuine e he := (h.sound e he).genuine
  snapshot_version e he hk := by rw [(h.sound e he).version, if_neg hk]
  tombstone i hi hi' hk := by
    refine ⟨(h.succeeds_getElem hi hi').tombstone hk, ?_⟩
    rw [(h.sound _ (List.getElem_mem hi')).version, if_pos hk]
  link i hi hi' := (h.succeeds_getElem hi hi').link

end CatalogChain
