import CatalogChain.Proofs.Event.Tampering
import CatalogChain.Proofs.Service.History

/-!
# What a replayed history is evidence of

A replay answers with a list that the check of chains accepts, whatever has been put into the log.
Such a list binds the fingerprints that are recorded in it, each one by the next event, and nothing
else (`Chain.Binds`): whoever tells a snapshot differently and keeps its fingerprint is not noticed
by the check, but only by the snapshot itself, whose fingerprint does not belong to it any more.

That all snapshots carry their own fingerprints is thus no consequence of the check
(`Chain.check_retold_sample`).  It holds of the histories that a deployment has recorded itself
(`Deployment.binding_run`).
-/

namespace CatalogChain

/-- **An event whose snapshot is told differently** under the fingerprint that it carries. -/
def Event.retold (e : Event) (p : Product) : Event :=
  e.withSnapshot { p with fingerprint := e.snapshot.fingerprint }

/-- A snapshot that is told differently does not carry its own fingerprint. -/
theorem Event.hasValidFingerprint_retold {e : Event} {p : Product} (he : e.snapshot.Countable)
    (hp : p.Countable) (hvalid : e.snapshot.hasValidFingerprint = true)
    (hne : ¬ p.Alike e.snapshot)
    (hsep : Sha256.Separates p.canonicalBytes e.snapshot.canonicalBytes) :
    (e.retold p).snapshot.hasValidFingerprint = false := by
  rw [retold, snapshot_withSnapshot, Bool.eq_false_iff]
  intro htold
  -- identity, version and content of `p` are all that counts for its bytes
  have hbounds : { p with fingerprint := e.snapshot.fingerprint : Product }.Countable :=
    ⟨hp.id, hp.version, hp.content⟩
  have halike := Product.alike_of_fingerprint_eq hbounds he htold hvalid hsep rfl
  exact hne halike

namespace Chain

/-- **A list of events binds the fingerprints recorded in it**, and leaves the rest of the snapshots
to them. -/
structure Binds (es : List Event) : Prop where
  /-- Every event but the first repeats the fingerprint that is recorded before it. -/
  link : es.IsChain fun a b => b.previous = a.snapshot.fingerprint
  /-- The check does not notice a snapshot that is told differently under its fingerprint. -/
  unnoticed : ∀ i p, (h : i < es.length) → check (es.set i (es[i].retold p)) = .ok ()
  /-- The snapshot gives it away, if it carried its own fingerprint before. -/
  exposed : ∀ i p, (h : i < es.length) → es[i].snapshot.hasValidFingerprint = true →
    es[i].snapshot.Countable → p.Countable → ¬ p.Alike es[i].snapshot →
    Sha256.Separates p.canonicalBytes es[i].snapshot.canonicalBytes →
    (es[i].retold p).snapshot.hasValidFingerprint = false

theorem resembles_set_retold {es : List Event} {i : Nat} (hi : i < es.length) (p : Product) :
    List.Forall₂ Event.Resembles (es.set i (es[i].retold p)) es := by
  rw [List.forall₂_iff_get]
  refine ⟨List.length_set, fun j hj hj' => ?_⟩
  rw [List.get_eq_getElem, List.get_eq_getElem, List.getElem_set]
  split_ifs with hij
  · subst hij
    exact .withSnapshot rfl
  · exact .refl _

theorem binds_of_check {es : List Event} (h : check es = .ok ()) : Binds es where
  link := List.isChain_iff_getElem.mpr fun i hi => ((check_eq_ok_iff.mp h).follows i hi).link
  unnoticed _ p hi := (check_congr (resembles_set_retold hi p)).trans h
  exposed _ _ _ hvalid he hp hne hsep := Event.hasValidFingerprint_retold he hp hvalid hne hsep

end Chain

/-- A replay answers with a list that the check accepts. -/
theorem Service.check_of_replay {s : Service} {id : String} {v : Int} {es : List Event}
    (h : s.replay id v = .ok es) : Chain.check es = .ok () := by
  unfold replay at h
  simp only at h
  split at h
  · next hok =>
    cases h
    exact hok
  · cases h

/-- **Replayed histories bind their fingerprints, and recorded ones carry their own.**  Every list
that the check accepts binds the fingerprints recorded in it, and so does every history that is
replayed, whatever stands in the log.  If a deployment has recorded its log itself, every replay of
it succeeds, and all snapshots carry the fingerprints that belong to them. -/
theorem Deployment.binding_run (σ : Supply) (settings : WriteSettings) (feed : Feed) :
    (∀ es, Chain.check es = .ok () → Chain.Binds es) ∧
    (∀ (s : Service) id v es, s.replay id v = .ok es → Chain.Binds es) ∧
    ∀ ops id v, ∃ es, ((fresh settings feed).run σ ops).service.replay id v = .ok es ∧
      ∀ e ∈ es, e.snapshot.hasValidFingerprint = true := by
  refine ⟨fun es => Chain.binds_of_check, fun s id v es h =>
    Chain.binds_of_check (Service.check_of_replay h), fun ops id v => ?_⟩
  obtain ⟨es, hagrees⟩ := agrees_run σ settings feed ops
  refine ⟨_, hagrees.chronicled.replay id v, fun e he => ?_⟩
  have hgenuine := (hagrees.chronicled.chronicle id).genuine e (List.mem_of_mem_filter he)
  exact decide_eq_true hgenuine

/-- **Not every list that is accepted carries its own fingerprints.**  The sample is accepted as
before when its first snapshot tells of another place of the stock. -/
theorem Chain.check_retold_sample :
    let forged := sample[0].retold (Product.sample 899 0 "wh-2")
    check sample = .ok () ∧ sample[0].snapshot.hasValidFingerprint = true ∧
      check (sample.set 0 forged) = .ok () ∧ forged.snapshot.hasValidFingerprint = false := by
  have hok := check_eq_ok_iff.mpr linked_sample
  refine ⟨hok, Product.hasValidFingerprint_sealed _, (binds_of_check hok).unnoticed 0 _ (by decide),
    ?_⟩
  decide +kernel

end CatalogChain
