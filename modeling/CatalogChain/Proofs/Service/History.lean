import CatalogChain.Proofs.Service.Runs

/-!
# History and live table of a deployment

What holds between the operations of a deployment that has started with nothing.

* `Service.Chronicled`: the events of every product are in order, and every replay succeeds and
  shows what it should.
* `Service.Projected`: the live table is the log folded up event by event (`LiveTable.ofEvents`);
  and what is deleted once stays so.

Both are read off the agreement of the log and the live table, which every operation keeps
(`Agrees.run`).
-/

namespace CatalogChain

/-! ## Replays -/

/-- **All histories of a service are in order**, and can be replayed from any version on. -/
structure Service.Chronicled (s : Service) : Prop where
  chronicle : ∀ id, Chronicle id (trail id s.log.events)
  replay : ∀ id v, s.replay id v = .ok ((trail id s.log.events).filter fun e => v ≤ e.version)

theorem Agrees.chronicled {es : List Event} {s : Service} (h : Agrees es s []) : s.Chronicled where
  chronicle id := by
    rw [h.records.events]
    exact (h.agreement.lives id).chronicle
  replay id v := by
    have hquery : s.log.query id v = (trail id s.log.events).filter fun e => v ≤ e.version := by
      rw [h.records.query_eq_filter, h.history_eq, h.records.events]
    have hsuffix : s.log.query id v <:+ s.log.history id := List.dropWhile_suffix _
    have hcheck := (h.life_history id).check_suffix hsuffix
    unfold Service.replay
    simp only [hcheck]
    rw [hquery]

/-! ## Folding up the log -/

/-- What an event says about the products that are there. -/
def Event.project (live : LiveTable) (e : Event) : LiveTable :=
  match e.kind with
  | .created | .updated => live.put e.entityId e.snapshot
  | .deleted => live.erase e.entityId

/-- **The table that a list of events leads to.** -/
def LiveTable.ofEvents (es : List Event) : LiveTable := es.foldl Event.project .empty

theorem Event.get?_project (live : LiveTable) (e : Event) (id : String) :
    (e.project live).get? id =
      if e.entityId = id then if e.kind = .deleted then none else some e.snapshot
      else live.get? id := by
  unfold project
  cases e.kind with
  | created | updated => exact Table.get?_put ..
  | deleted => exact Table.get?_erase ..

/-- Of the events of a product only the last one counts. -/
theorem LiveTable.get?_ofEvents (es : List Event) (id : String) :
    (ofEvents es).get? id = current (trail id es) := by
  induction es using List.reverseRecOn with
  | nil => rfl
  | append_singleton es e ih =>
    unfold ofEvents at ih ⊢
    rw [List.foldl_append, List.foldl_cons, List.foldl_nil, Event.get?_project, ih,
      current_trail_append]

/-! ## Questions -/

/-- The event of the highest version of a product. -/
def EventLog.Newest (log : EventLog) (id : String) (e : Event) : Prop :=
  e ∈ log.events ∧ e.entityId = id ∧ ∀ a ∈ log.events, a.entityId = id → a.version ≤ e.version

theorem Service.get_eq_ok_iff {s : Service} {id : String} {p : Product} :
    s.get id = .ok p ↔ s.live.get? id = some p := by
  unfold get
  cases s.live.get? id <;> simp

theorem Service.get_eq_notFound_iff {s : Service} {id : String} :
    s.get id = .error (.notFound id) ↔ s.live.get? id = none := by
  unfold get
  cases s.live.get? id <;> simp

/-- **The live table of a service is its log folded up**, and so it answers what the newest event of
a product says. -/
structure Service.Projected (s : Service) : Prop where
  live : ∀ id, s.live.get? id = (LiveTable.ofEvents s.log.events).get? id
  found : ∀ id p, s.get id = .ok p ↔
    ∃ e, s.log.Newest id e ∧ e.kind ≠ .deleted ∧ e.snapshot = p
  latest : ∀ id p, s.get id = .ok p → s.log.latestSnapshot? id = some (p, p.version) ∧
    p.version = (trail id s.log.events).length
  missing : ∀ id, s.get id = .error (.notFound id) ↔
    trail id s.log.events = [] ∨ ∃ e, s.log.Newest id e ∧ e.kind = .deleted

namespace Agrees

variable {es : List Event} {s : Service} (h : Agrees es s [])
include h

theorem newest_iff {id : String} {e : Event} :
    s.log.Newest id e ↔ (trail id es).getLast? = some e := by
  rw [EventLog.Newest, h.records.events, ← h.records.latest?_eq_some_iff, EventLog.latest?,
    h.history_eq]

theorem live_eq (id : String) : s.live.get? id = current (trail id es) := by
  rw [← h.history_eq]
  refine h.get?_eq_current fun c hc => ?_
  cases hc

/-- What is deleted is not found. -/
theorem get_of_deleted {e : Event} (he : e ∈ es) (hk : e.kind = .deleted) :
    s.get e.entityId = .error (.notFound e.entityId) := by
  have hlife := h.agreement.lives e.entityId
  have hmem : e ∈ trail e.entityId es := mem_trail.mpr ⟨he, rfl⟩
  have hbounds := hlife.version_bounds hmem
  -- a deletion has no successor
  have hlast : e.version = (trail e.entityId es).length := by
    by_contra hne
    exact hlife.alive_of_lt hmem (by omega) hk
  rw [Service.get_eq_notFound_iff, h.live_eq, current_eq_none_iff]
  exact .inr ⟨e, hlife.getLast?_of_version hmem hlast, hk⟩

theorem projected : s.Projected where
  live id := by
    rw [LiveTable.get?_ofEvents, h.records.events]
    exact h.live_eq id
  found id p := by
    rw [Service.get_eq_ok_iff, h.live_eq, current_eq_some_iff]
    exact exists_congr fun e => and_congr_left' h.newest_iff.symm
  latest id p hp := by
    rw [Service.get_eq_ok_iff, h.live_eq] at hp
    obtain ⟨-, -, -, -, -, hv⟩ := (h.agreement.lives id).version_of_current hp
    obtain ⟨e, hl, hk, rfl⟩ := current_eq_some_iff.mp hp
    have hev := (h.agreement.lives id).version_of_getLast? hl
    constructor
    · rw [EventLog.latestSnapshot?, EventLog.latest?, h.history_eq, hl, Option.map_some, hv, hev]
    · rw [h.records.events, hv]
  missing id := by
    rw [Service.get_eq_notFound_iff, h.live_eq, current_eq_none_iff, h.records.events]
    exact or_congr_right (exists_congr fun e => and_congr_left' h.newest_iff.symm)

end Agrees

/-! ## Runs -/

namespace Deployment

variable (σ : Supply) (settings : WriteSettings) (feed : Feed)

theorem agrees_run (ops : List Operation) :
    ∃ es, Agrees es ((fresh settings feed).run σ ops).service [] := by
  exact Agrees.run (d := fresh settings feed) (.fresh settings feed) ops

/-- **Histories stay in order**, whatever a deployment goes through. -/
theorem chronicled_run (ops : List Operation) :
    ((fresh settings feed).run σ ops).service.Chronicled := by
  obtain ⟨es, h⟩ := agrees_run σ settings feed ops
  exact h.chronicled

/-- **The live table stays the fold of the log**, whatever a deployment goes through, and what is
deleted once is never found again. -/
theorem projected_run (ops : List Operation) :
    ((fresh settings feed).run σ ops).service.Projected ∧
      ∀ e ∈ ((fresh settings feed).run σ ops).service.log.events, e.kind = .deleted →
        ∀ later, ((fresh settings feed).run σ (ops ++ later)).service.get e.entityId =
          .error (.notFound e.entityId) := by
  obtain ⟨es, h⟩ := agrees_run σ settings feed ops
  refine ⟨h.projected, fun e he hk later => ?_⟩
  rw [h.records.events] at he
  obtain ⟨fs, hlater⟩ := h.run (σ := σ) later
  rw [run_append]
  exact hlater.get_of_deleted (List.mem_append_left fs he) hk

end Deployment

end CatalogChain
