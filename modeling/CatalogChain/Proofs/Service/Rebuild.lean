import CatalogChain.Proofs.Product.Patch
import CatalogChain.Proofs.Service.History
import CatalogChain.Proofs.Service.Invariants

/-!
# Histories rebuilt from changes

A history can be told by its first snapshot and the changes of its updates alone: written one after
the other into the content of the creation, they lead to the content of every later snapshot, and
to what the live table shows (`Service.Rebuilt`).  Each update records the changes against the live
table; that these are the changes against the snapshot before is part of the agreement of the two
(`Event.Succeeds.difference`).

Whatever is recorded or shown has come with some request (`holds_invariant`), so it has quantities
of 64 bits if all requests have.
-/

namespace CatalogChain

/-! ## Rebuilding -/

/-- The content behind an event: an update writes its changes. -/
def Content.after (c : Content) (e : Event) : Reading Content :=
  match e.payload with
  | .updated _ _ changes => c.patch changes
  | .created _ | .deleted .. => .ok c

/-- **The content behind events**, one after the other. -/
def Content.rebuild (c : Content) (es : List Event) : Reading Content := es.foldlM Content.after c

theorem Content.rebuild_take_succ (c : Content) {es : List Event} {n : Nat} (hn : n < es.length) :
    c.rebuild (es.take (n + 1)) = c.rebuild (es.take n) >>= fun c => c.after es[n] := by
  rw [rebuild, List.take_add_one, List.getElem?_eq_getElem hn, Option.toList_some,
    List.foldlM_append]
  simp only [List.foldlM_cons, List.foldlM_nil, bind_pure]
  rfl

/-- An event that goes on with the life of a product leads from the snapshot before to its own. -/
theorem Event.Succeeds.after {id : String} {b e : Event} (h : Event.Succeeds id b e)
    (hrange : e.snapshot.content.InRange) {c : Content}
    (hc : c.same b.snapshot.content = true) :
    ∃ c', c.after e = .ok c' ∧ c'.same e.snapshot.content = true := by
  have hlater := h.later
  have htombstone := h.tombstone
  have hdifference := h.difference
  unfold Event.kind at hlater htombstone hdifference
  unfold Content.after
  cases hp : e.payload with
  | created p =>
    rw [hp] at hlater
    exact absurd rfl hlater
  | updated p previous changes =>
    rw [hp] at hdifference
    have hchanges : changes = _ := hdifference rfl
    rw [hchanges]
    exact leads_changesTo hrange c hc
  | deleted p previous =>
    rw [hp] at htombstone
    rw [htombstone rfl]
    exact ⟨c, rfl, hc⟩

/-- **A life is rebuilt from its changes**, up to each of its events. -/
theorem Life.rebuild {id : String} {first : Event} {later : List Event}
    (h : Life id (first :: later)) (hrange : ∀ e ∈ later, e.snapshot.content.InRange) {n : Nat}
    (hn : n < (first :: later).length) :
    ∃ c, first.snapshot.content.rebuild (later.take n) = .ok c ∧
      c.same (first :: later)[n].snapshot.content = true := by
  -- what is rebuilt so far is the same as the snapshot up to scales, which the next changes allow
  induction n with
  | zero => exact ⟨_, rfl, Content.same_refl _⟩
  | succ n ih =>
    have hn' : n < later.length := Nat.lt_of_succ_lt_succ hn
    obtain ⟨c, hc, hsame⟩ := ih (Nat.lt_of_succ_lt hn)
    obtain ⟨c', hc', hsame'⟩ := (h.succeeds_getElem (Nat.lt_of_succ_lt hn) hn).after
      (hrange _ (List.getElem_mem hn')) hsame
    refine ⟨c', ?_, hsame'⟩
    rw [Content.rebuild_take_succ _ hn', hc]
    exact hc'

/-! ## What is recorded has come with a request -/

section Provenance
variable {P : Content → Prop}

/-- The content that a request offers has a property. -/
def Request.Offers (P : Content → Prop) : Request → Prop
  | create draft => P draft
  | update candidate => P candidate.content
  | remove _ => True

/-- Everything that a call has to record or to commit has a property. -/
def Call.Holds (P : Content → Prop) (c : Call) : Prop :=
  c.request.Offers P ∧
    match c.stage with
    | .appending _ e | .committing _ e => P e.snapshot.content
    | _ => True

/-- Everything that a service has recorded or shows has a property. -/
structure Service.Holds (P : Content → Prop) (s : Service) : Prop where
  recorded : ∀ id, ∀ e ∈ s.log.history id, P e.snapshot.content
  live : ∀ id p, s.live.get? id = some p → P p.content

theorem Service.Holds.fresh (settings : WriteSettings) (feed : Feed) :
    (Service.fresh settings feed).Holds P where
  recorded _ _ he := by cases he
  live _ _ hp := by cases hp

theorem EventLog.mem_history_append {log : EventLog} {a e : Event} {id : String}
    (h : a ∈ (log.append e).2.history id) :
    a ∈ log.history id ∨ a = e.numbered (log.lastSequence + 1) := by
  unfold append at h
  simp only at h
  split at h
  · exact .inl h
  · next history hinsert =>
    rw [history_put] at h
    split_ifs at h with hid
    · rcases (mem_insertByVersion hinsert a).mp h with ha | ha
      · exact .inr ha
      · exact .inl (hid ▸ ha)
    · exact .inl h

theorem LiveTable.eq_of_get?_apply {live : LiveTable} {e : Event} {id : String} {p : Product}
    (h : (live.apply e).get? id = some p) : live.get? id = some p ∨ p = e.snapshot := by
  unfold apply at h
  unfold Event.snapshot
  cases hp : e.payload with
  | created q | updated q =>
    simp only [hp, Table.get?_put] at h
    split_ifs at h
    · exact .inr (Option.some.inj h).symm
    · exact .inl h
  | deleted q =>
    simp only [hp, Table.get?_erase] at h
    split_ifs at h
    exact .inl h

theorem EventLog.eq_of_append_ok {log : EventLog} {e recorded : Event}
    (h : (log.append e).1 = .ok recorded) : recorded = e.numbered (log.lastSequence + 1) := by
  unfold append at h
  simp only at h
  split at h
  · cases h
  · exact (Except.ok.inj h).symm

theorem Service.Holds.append {s : Service} (h : s.Holds P) {e : Event}
    (he : P e.snapshot.content) : Service.Holds P { s with log := (s.log.append e).2 } where
  recorded id a ha := by
    rcases EventLog.mem_history_append ha with ha | rfl
    · exact h.recorded id a ha
    · exact he
  live := h.live

theorem Service.Holds.commit {s : Service} (h : s.Holds P) {e : Event}
    (he : P e.snapshot.content) : Service.Holds P { s with live := s.live.apply e } where
  recorded := h.recorded
  live id p hp := by
    rcases LiveTable.eq_of_get?_apply hp with hp | rfl
    · exact h.live id p hp
    · exact he

theorem Call.Holds.conclude {c : Call} (h : c.Holds P) (lock : Option Token) (outcome : Outcome) :
    (c.conclude lock outcome).Holds P := by
  cases lock <;> exact ⟨h.1, trivial⟩

/-- **A move records and commits only what the call has or the service shows.** -/
theorem Call.Moves.holds {σ : Supply} {now : Nat} {cancelled : Bool} {s s' : Service} {c c' : Call}
    (h : Call.Moves σ now cancelled s c s' c') (hs : s.Holds P) (hc : c.Holds P) :
    s'.Holds P ∧ c'.Holds P := by
  have hoffers := hc.1
  have hstaged := hc.2
  cases h with
  | invalid | seek | give | retry | crash | despair | wake => exact ⟨hs, hoffers, trivial⟩
  | grant | release => exact ⟨⟨hs.recorded, hs.live⟩, hoffers, trivial⟩
  | doze | ended => exact ⟨hs, hc⟩
  | missing | conflict => exact ⟨hs, Holds.conclude hc ..⟩
  | publish => exact ⟨⟨hs.recorded, hs.live⟩, Holds.conclude hc ..⟩
  | draft _ hr | revise _ hr =>
    rw [hr] at hoffers
    exact ⟨⟨hs.recorded, hs.live⟩, hc.1, hoffers⟩
  | bury _ _ hp => exact ⟨⟨hs.recorded, hs.live⟩, hoffers, hs.live _ _ hp⟩
  | record hstage ha =>
    rw [hstage] at hstaged
    rw [EventLog.eq_of_append_ok ha]
    exact ⟨hs.append hstaged, hoffers, hstaged⟩
  | reject hstage =>
    rw [hstage] at hstaged
    exact ⟨hs.append hstaged, Holds.conclude hc ..⟩
  | commit hstage =>
    rw [hstage] at hstaged
    exact ⟨hs.commit hstaged, hoffers, trivial⟩

/-- **What is recorded and shown has come with a request.** -/
theorem holds_invariant (σ : Supply) (P : Content → Prop) :
    Service.Invariant σ (Service.Holds P) (Call.Holds P) where
  step s c now cancelled hs hc := (c.step_moves σ now cancelled s).holds hs hc
  surround _ _ _ hs := ⟨hs.recorded, hs.live⟩

end Provenance

/-! ## Runs -/

/-- **A service whose histories are rebuilt from their changes**: those of every product begin with
a creation, and the changes behind it lead, in the order of versions, to every snapshot that is
recorded and to the product that is shown. -/
structure Service.Rebuilt (s : Service) : Prop where
  recorded : ∀ id first later, s.log.history id = first :: later → first.kind = .created ∧
    ∀ n, (h : n < (first :: later).length) → (first :: later)[n].version = n + 1 ∧
      ∃ c, first.snapshot.content.rebuild (later.take n) = .ok c ∧
        c.same (first :: later)[n].snapshot.content = true
  live : ∀ id p, s.live.get? id = some p → ∃ first later c, s.log.history id = first :: later ∧
    first.snapshot.content.rebuild later = .ok c ∧ c.same p.content = true

theorem Agrees.rebuilt {es : List Event} {s : Service} (h : Agrees es s [])
    (hrange : s.Holds Content.InRange) : s.Rebuilt where
  recorded id first later heq := by
    have hlife : Life id (first :: later) := heq ▸ h.life_history id
    have hlater : ∀ e ∈ later, e.snapshot.content.InRange := fun e he =>
      hrange.recorded id e (heq ▸ List.mem_cons_of_mem first he)
    exact ⟨(hlife.begins_getElem (Nat.succ_pos _)).1, fun n hn =>
      ⟨hlife.version_getElem hn, hlife.rebuild hlater hn⟩⟩
  live id p hp := by
    rw [h.live_eq, ← h.history_eq] at hp
    obtain ⟨e, hlast, -, rfl⟩ := current_eq_some_iff.mp hp
    cases heq : s.log.history id with
    | nil =>
      rw [heq] at hlast
      cases hlast
    | cons first later =>
      have hlife : Life id (first :: later) := heq ▸ h.life_history id
      have hlater : ∀ e ∈ later, e.snapshot.content.InRange := fun e he =>
        hrange.recorded id e (heq ▸ List.mem_cons_of_mem first he)
      obtain ⟨c, hc, hsame⟩ := hlife.rebuild hlater (Nat.lt_succ_self later.length)
      rw [List.take_length] at hc
      rw [heq, List.getLast?_eq_getElem?, List.length_cons, Nat.add_sub_cancel,
        List.getElem?_eq_getElem (Nat.lt_succ_self _)] at hlast
      exact ⟨first, later, c, rfl, hc, by rwa [← Option.some.inj hlast]⟩

/-- **The changes that are recorded are a complete history of patches.**  Between any two contents
the changes lead there and back, and whatever a deployment goes through, the changes of the updates
of every product, from its creation on, lead to all of its snapshots and to what is shown of it. -/
theorem Deployment.rebuilt_run (σ : Supply) (settings : WriteSettings) (feed : Feed)
    {ops : List Operation} (h : ∀ op ∈ ops, ∀ r ∈ op.requests, r.Offers Content.InRange) :
    (∀ old new : Content, old.InRange → new.InRange → old.Patches new) ∧
      ((fresh settings feed).run σ ops).service.Rebuilt := by
  have hfresh : (fresh settings feed).service.Holds Content.InRange := .fresh settings feed
  have hrange := (holds_invariant σ Content.InRange).run hfresh fun op hop r hr =>
    ⟨h op hop r hr, trivial⟩
  obtain ⟨es, hagrees⟩ := agrees_run σ settings feed ops
  exact ⟨fun old new => Content.patches, hagrees.rebuilt hrange⟩

/-- A supply that gives the same every time. -/
def Supply.sample : Supply := ⟨fun _ => "1", fun _ => .nil, fun _ => .epoch⟩

/-- The product `prod_1` is created, gets another price and another place of its stock, and is
deleted. -/
def Operation.sample : List Operation :=
  [.write .never (.create (Product.sample 899 0 "wh-1").content),
    .write .never (.update (Product.sample 89950 2 "wh-2")), .write .never (.remove "prod_1")]

theorem Deployment.rebuilt_sample :
    ((fresh {} default).run .sample Operation.sample).service.log.count = 3 ∧
      ((fresh {} default).run .sample Operation.sample).service.Rebuilt := by
  refine ⟨by decide +kernel, (rebuilt_run .sample {} default ?_).2⟩
  intro op hop r hr
  simp only [Operation.sample, List.mem_cons, List.not_mem_nil, or_false] at hop
  rcases hop with rfl | rfl | rfl
  · rw [List.mem_singleton.mp hr]
    show Content.InRange _
    decide
  · rw [List.mem_singleton.mp hr]
    show Content.InRange _
    decide
  · rw [List.mem_singleton.mp hr]
    exact trivial

end CatalogChain
