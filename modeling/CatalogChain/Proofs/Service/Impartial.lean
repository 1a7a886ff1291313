import CatalogChain.Proofs.Service.History
import CatalogChain.Proofs.Service.Successes
import CatalogChain.Proofs.Service.Veil

/-!
# Bookkeeping fields cannot be forged

When a product was created and changed, and what its fingerprint is, is kept by the service; but a
candidate of an update carries these fields too, with whatever its writer has put there.

* **They are of no consequence** (`Deployment.Impartial`).  Two candidates that differ in nothing
  else are one candidate under the veil, and so are the updates, the batches and the runs made with
  them.  What an update that succeeds has committed comes from the product before and from the
  fields that are left.
* **They are what they should be** (`Service.Authentic`).  Behind every run each product that is
  recorded or shown has the instant of its creation, and a fingerprint of its own.
-/

namespace CatalogChain

/-! ## Candidates -/

/-- **A candidate takes the place of a product**: the new product has the candidate's content in the
next version, it was created when the old one was, and its fingerprint is its own. -/
structure Product.Replaces (candidate current next : Product) : Prop where
  id : next.id = candidate.id
  content : next.content = candidate.content
  version : candidate.version = current.version ∧ next.version = current.version + 1
  createdAt : next.createdAt = current.createdAt
  fingerprint : next.fingerprint = next.computeFingerprint

/-- **A deployment that makes nothing of bookkeeping fields.** -/
structure Deployment.Impartial (σ : Supply) (d : Deployment) : Prop where
  /-- Whatever instants and whatever fingerprint a candidate carries, the update has the same
  outcome, and leaves the same deployment, but for the identifiers drawn for events. -/
  update : ∀ cancellation candidate createdAt updatedAt fingerprint uuid,
    (d.perform? { σ with uuid } cancellation
        (.update { candidate with createdAt, updatedAt, fingerprint })).map
          (Prod.map Outcome.veiled veiled) =
      (d.perform? σ cancellation (.update candidate)).map (Prod.map Outcome.veiled veiled)
  /-- It is so with the updates of a batch, whose results are the same to the letter, -/
  batch : ∀ cancellation requests requests' uuid,
    requests'.map Request.veiled = requests.map Request.veiled →
      (d.performBatch? { σ with uuid } cancellation requests').map (Prod.map id veiled) =
        (d.performBatch? σ cancellation requests).map (Prod.map id veiled)
  /-- and with all that a deployment can go through. -/
  run : ∀ ops ops' uuid, ops'.map Operation.veiled = ops.map Operation.veiled →
    (d.run { σ with uuid } ops').veiled = (d.run σ ops).veiled
  /-- An update that succeeds commits what it should, in the place of what was there. -/
  committed : ∀ cancellation candidate e d',
    d.perform? σ cancellation (.update candidate) = some (.ok e, d') →
      ∃ current, d.service.live.get? candidate.id = some current ∧
        candidate.Replaces current e.snapshot ∧
        e.previous = current.fingerprint ∧
        e.payload.changes = current.content.changesTo candidate.content ∧
        d'.service.live = d.service.live.put candidate.id e.snapshot

theorem Deployment.impartial (σ : Supply) (d : Deployment) : d.Impartial σ where
  update cancellation candidate createdAt updatedAt fingerprint uuid := by
    have hforged : (Request.update { candidate with createdAt, updatedAt, fingerprint }).veiled =
        (Request.update candidate).veiled := rfl
    rw [← d.perform?_veiled, ← d.perform?_veiled, hforged]
    rfl
  batch cancellation requests requests' uuid h := by
    rw [← d.performBatch?_veiled, ← d.performBatch?_veiled, h]
    rfl
  run ops ops' uuid h := by
    rw [← d.run_veiled, ← d.run_veiled, h]
    rfl
  committed cancellation candidate e d' h := by
    obtain ⟨⟨current, now, hget, hversion, hid, hp⟩, hlive⟩ := answered_of_perform? h
    have hsnapshot : e.snapshot =
        { candidate with createdAt := current.createdAt, updatedAt := now }.bump := by
      rw [Event.snapshot, hp]
      rfl
    refine ⟨current, hget, ?_, by rw [Event.previous, hp]; rfl, by rw [hp]; rfl, ?_⟩
    · rw [hsnapshot]
      exact ⟨rfl, rfl, ⟨hversion, congrArg (· + 1) hversion⟩, rfl, rfl⟩
    · rw [hlive, LiveTable.apply, hp, hsnapshot]
      rfl

/-! ## Products -/

/-- **A service whose bookkeeping is in order.** -/
structure Service.Authentic (s : Service) : Prop where
  /-- Every product that is recorded was created at the instant that its creation records. -/
  createdAt : ∀ e ∈ s.log.events, ∃ b ∈ s.log.events,
    b.kind = .created ∧ b.entityId = e.entityId ∧ e.snapshot.createdAt = b.snapshot.createdAt
  /-- It has the fingerprint that belongs to its content and to its version. -/
  fingerprint : ∀ e ∈ s.log.events, e.snapshot.fingerprint = e.snapshot.computeFingerprint
  /-- Every product that is shown is recorded. -/
  shown : ∀ id p, s.live.get? id = some p → ∃ e ∈ s.log.events, e.entityId = id ∧ e.snapshot = p

theorem Agrees.authentic {es : List Event} {s : Service} (h : Agrees es s []) : s.Authentic where
  createdAt e he := by
    rw [h.records.events] at he ⊢
    have hlife := h.agreement.lives e.entityId
    have hmem : e ∈ trail e.entityId es := mem_trail.mpr ⟨he, rfl⟩
    have hpos := List.length_pos_of_mem hmem
    have hfirst := List.getElem_mem hpos
    obtain ⟨hb, hid⟩ := mem_trail.mp hfirst
    exact ⟨_, hb, (hlife.begins_getElem hpos).1, hid, hlife.createdAt_eq hmem hfirst⟩
  fingerprint e he := by
    rw [h.records.events] at he
    exact ((h.agreement.lives e.entityId).sound e (mem_trail.mpr ⟨he, rfl⟩)).genuine
  shown id p hp := by
    rw [h.live_eq] at hp
    rw [h.records.events]
    obtain ⟨e, hmem, -, hsnapshot, -⟩ := (h.agreement.lives id).version_of_current hp
    obtain ⟨he, hid⟩ := mem_trail.mp hmem
    exact ⟨e, he, hid, hsnapshot⟩

/-- **Bookkeeping fields cannot be forged**: in whatever state a deployment is, it makes nothing of
them, and behind every run they are what they should be. -/
theorem Deployment.unforgeable (σ : Supply) :
    (∀ d : Deployment, d.Impartial σ) ∧
      ∀ settings feed ops, ((fresh settings feed).run σ ops).service.Authentic := by
  refine ⟨fun d => d.impartial σ, fun settings feed ops => ?_⟩
  obtain ⟨es, h⟩ := agrees_run σ settings feed ops
  exact h.authentic

end CatalogChain
