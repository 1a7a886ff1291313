import CatalogChain.Proofs.Service.Serial

/-!
# Single writes that succeed

A single write that succeeds has been made in one go, on the live table and the log that it found
(`Deployment.write_of_perform?`): it may have waited for its lock, but all that happens meanwhile is
that time passes.  So its event is the one that its request asks for where the live table shows what
there is (`Request.Answered`), and the live table has been changed by this event only
(`Deployment.answered_of_perform?`).
-/

namespace CatalogChain

/-- **The event that a request asks for**, where a live table shows what there is. -/
def Request.Answered (live : LiveTable) (e : Event) : Request → Prop
  | .create draft => ∃ now,
    e.entityId = e.snapshot.id ∧ e.payload = .created (.ofContent e.snapshot.id draft now)
  | .update candidate => ∃ current now,
    live.get? candidate.id = some current ∧ candidate.version = current.version ∧
      e.entityId = candidate.id ∧ e.payload = .updated
        { candidate with createdAt := current.createdAt, updatedAt := now }.bump
        current.fingerprint (current.content.changesTo candidate.content)
  | .remove id => ∃ current,
    live.get? id = some current ∧ e.entityId = current.id ∧
      e.payload = .deleted current current.fingerprint

namespace Request.Answered

variable {live : LiveTable} {e : Event} {r : Request}

theorem numbered (h : r.Answered live e) (n : Nat) : r.Answered live (e.numbered n) := by
  cases r <;> exact h

end Request.Answered

/-- What is prepared is what the request asks for. -/
theorem Service.answered_of_prepare {σ : Supply} {s : Service} {r : Request} {e : Event}
    (h : (s.prepare σ r).1 = .ok e) : r.Answered s.live e := by
  unfold prepare at h
  cases r with
  | create draft =>
    cases h
    exact ⟨_, rfl, rfl⟩
  | update candidate =>
    cases hp : s.live.get? candidate.id with
    | none =>
      simp only [Request.target, Request.plan, hp] at h
      cases h
    | some current =>
      simp only [Request.target, Request.plan, hp] at h
      split_ifs at h with hv
      · cases h
      · cases h
        exact ⟨current, _, hp, not_not.mp hv, rfl, rfl⟩
  | remove id =>
    cases hp : s.live.get? id with
    | none =>
      simp only [Request.target, Request.plan, hp] at h
      cases h
    | some current =>
      simp only [Request.target, Request.plan, hp] at h
      cases h
      exact ⟨current, hp, rfl, rfl⟩

/-- **A write that succeeds** records what its request asks for, and commits that. -/
theorem Service.answered_of_write {σ : Supply} {s : Service} {r : Request} {e : Event}
    (h : (s.write σ r).1 = .ok e) :
    r.Answered s.live e ∧ (s.write σ r).2.live = s.live.apply e := by
  obtain ⟨e₀, hprepared, happend, rfl, -⟩ := exists_prepared h
  obtain ⟨hlive, hlog⟩ := Prod.mk.inj (books_prepare σ s r)
  refine ⟨(answered_of_prepare hprepared).numbered _, ?_⟩
  rw [write_of_prepare hprepared]
  unfold enter
  rw [hlog, happend, hlive]

/-- **A crew of one whose write has succeeded** has made this write and no other. -/
theorem Crew.Serial.write_of_outcome? {b : LiveTable × EventLog} {c : Crew} {r : Request}
    {e : Event} (h : c.Serial [r] b) (hended : (c.ended.map Prod.fst).Perm (List.range 1))
    (ho : c.outcome? 0 = some (.ok e)) :
    ∃ (σ : Supply) (s : Service), s.books = b ∧ (s.write σ r).1 = .ok e ∧
      c.deployment.service.books = (s.write σ r).2.books := by
  obtain ⟨ws, hcommits, hpairs, hrequests⟩ := h.commits
  have hmem : (0, e) ∈ ws.map fun w => (w.index, w.event) :=
    hpairs ▸ (mem_commits_iff hended).mpr ⟨Nat.one_pos, ho⟩
  obtain ⟨w, hw, hwe⟩ := List.mem_map.mp hmem
  obtain ⟨-, rfl⟩ := Prod.mk.inj hwe
  -- all commits have the index of the one request, and no two have the same
  have hzero : ∀ i ∈ ws.map Commit.index, i = 0 := fun i hi => by
    obtain ⟨w', hw', rfl⟩ := List.mem_map.mp hi
    obtain ⟨hlt, -⟩ := List.getElem?_eq_some_iff.mp (hrequests w' hw')
    exact Nat.lt_one_iff.mp hlt
  have hindices : (ws.map Commit.index).Nodup := by
    have hnodup := nodup_commits hended
    rwa [← hpairs, List.map_map] at hnodup
  rw [List.eq_replicate_of_mem hzero, List.nodup_replicate, List.length_map] at hindices
  obtain rfl : ws = [w] := by
    obtain ⟨w', hw'⟩ := List.length_eq_one_iff.mp
      (Nat.le_antisymm hindices (List.length_pos_of_mem hw))
    rw [hw'] at hw ⊢
    rw [List.mem_singleton.mp hw]
  obtain ⟨hlt, hrequest⟩ := List.getElem?_eq_some_iff.mp (hrequests w hw)
  have hr : w.request = r := hrequest.symm.trans (List.getElem_singleton hlt)
  obtain ⟨σ, s, hs, he, hb⟩ := hcommits.single
  exact ⟨σ, s, hs, hr ▸ he, hr ▸ hb⟩

namespace Deployment

variable {σ : Supply} {d d' : Deployment} {cancellation : Cancellation} {r : Request} {e : Event}

/-- **A single write that succeeds** has been made on the live table and the log that it found. -/
theorem write_of_perform? (h : d.perform? σ cancellation r = some (.ok e, d')) :
    ∃ (σ' : Supply) (s : Service), s.books = d.service.books ∧ (s.write σ' r).1 = .ok e ∧
      d'.service.books = (s.write σ' r).2.books := by
  cases hr : r.needsLock with
  | false =>
    -- a creation waits for nobody
    have hfree : d.service.Unhindered d.now [r] := fun r' hr' hneeds => by
      rw [List.mem_singleton.mp hr', hr] at hneeds
      cases hneeds
    rw [perform?_eq_answer cancellation hfree, Service.answer, hr] at h
    cases hv : r.check with
    | error v =>
      rw [hv] at h
      cases h
    | ok =>
      rw [hv] at h
      obtain ⟨hout, rfl⟩ := Prod.mk.inj (Option.some.inj h)
      exact ⟨σ, d.service, rfl, hout, rfl⟩
  | true =>
    unfold perform? at h
    obtain ⟨outcome, houtcome, ho⟩ := Option.map_eq_some_iff.mp h
    cases ho
    have hneeds : ∀ r' ∈ [r], r'.needsLock = true := fun r' hr' =>
      (List.mem_singleton.mp hr').symm ▸ hr
    have hlively := Crew.lively_ofRequests d cancellation false [r] (Nat.le_refl 1)
    have hserial := (Crew.serial_ofRequests d cancellation false 1 [r]).run (σ := σ) hneeds hlively
      (Crew.longestWork d.service.settings 1)
    exact hserial.write_of_outcome?
      (Crew.ended_of_longestWork d cancellation false (Nat.le_refl 1) [r]) houtcome

/-- **The event of a single write that succeeds** is what was asked for, and nothing else has
changed the live table. -/
theorem answered_of_perform? (h : d.perform? σ cancellation r = some (.ok e, d')) :
    r.Answered d.service.live e ∧ d'.service.live = d.service.live.apply e := by
  obtain ⟨σ', s, hs, he, hb⟩ := write_of_perform? h
  have hlive : s.live = d.service.live := congrArg Prod.fst hs
  obtain ⟨hanswered, happly⟩ := Service.answered_of_write he
  rw [hlive] at hanswered happly
  exact ⟨hanswered, (congrArg Prod.fst hb).trans happly⟩

end Deployment

end CatalogChain
