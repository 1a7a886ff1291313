import CatalogChain.Proofs.Service.AllOrNothing
import CatalogChain.Proofs.Service.Batches

/-!
# Writes that have succeeded

What a write does to the live table and the log depends on them alone, but for the identifier and
the readings of the clock that are drawn for its event (`Service.write_again`).  One that fails
leaves them as they are (`Service.books_of_write_error`).

`Commits` is a list of writes that have succeeded, each on the live table and the log that the one
before has left.  The numbers of their events follow one another (`Commits.sequence`), and the list
can be made again (`Commits.again`): single writes in this order, on a service with the same live
table and the same log, record the same events, if the same identifiers and readings are handed out
to them (`Supply.Retells`).
-/

namespace CatalogChain

/-! ## What a write reads and writes -/

namespace Service

/-- The live table and the log of a service. -/
def books (s : Service) : LiveTable × EventLog := (s.live, s.log)

variable {σ σ' : Supply} {s t : Service} {r : Request} {e : Event}

/-- What is prepared changes neither the live table nor the log. -/
theorem books_prepare (σ : Supply) (s : Service) (r : Request) :
    (s.prepare σ r).2.books = s.books := by
  unfold prepare
  cases r.plan (s.live.get? r.target) <;> rfl

/-- What an event does to a service depends on the live table and the log. -/
theorem enter_of_books (h : t.books = s.books) (e : Event) :
    (t.enter e).1 = (s.enter e).1 ∧ (t.enter e).2.books = (s.enter e).2.books := by
  obtain ⟨hlive, hlog⟩ := Prod.mk.inj h
  unfold enter books
  rw [hlive, hlog]
  split <;> exact ⟨rfl, rfl⟩

theorem draws_enter (s : Service) (e : Event) : (s.enter e).2.draws = s.draws := by
  unfold enter
  split <;> rfl

theorem write_of_prepare (h : (s.prepare σ r).1 = .ok e) :
    s.write σ r = (s.prepare σ r).2.enter e := by
  rw [write, h]

/-- **A write that fails** leaves the live table and the log. -/
theorem books_of_write_error {fault : Fault} (h : (s.write σ r).1 = .error fault) :
    (s.write σ r).2.books = s.books := by
  unfold write at h ⊢
  cases hp : (s.prepare σ r).1 with
  | error fault => exact books_prepare σ s r
  | ok e =>
    rw [hp] at h
    simp only at h ⊢
    unfold enter at h ⊢
    cases ha : ((s.prepare σ r).2.log.append e).1 with
    | ok recorded =>
      rw [ha] at h
      cases h
    | error fault' =>
      rw [← books_prepare σ s r]
      exact congrArg (Prod.mk _) (EventLog.append_of_error ha)

/-- **A write that succeeds** records the event that was prepared, under the next number. -/
theorem exists_prepared (h : (s.write σ r).1 = .ok e) :
    ∃ e₀, (s.prepare σ r).1 = .ok e₀ ∧ (s.log.append e₀).1 = .ok e ∧
      e = e₀.numbered (s.log.lastSequence + 1) ∧ (s.write σ r).2.log = (s.log.append e₀).2 := by
  have hlog : (s.prepare σ r).2.log = s.log := congrArg Prod.snd (books_prepare σ s r)
  unfold write at h ⊢
  cases hp : (s.prepare σ r).1 with
  | error fault =>
    rw [hp] at h
    cases h
  | ok e₀ =>
    rw [hp] at h
    simp only [enter, hlog] at h ⊢
    cases ha : (s.log.append e₀).1 with
    | error fault =>
      rw [ha] at h
      cases h
    | ok recorded =>
      rw [ha] at h
      cases h
      exact ⟨e₀, rfl, ha, EventLog.eq_of_append_ok ha, rfl⟩

end Service

/-- A log that takes an event has given one number more. -/
theorem EventLog.lastSequence_append {log : EventLog} {e recorded : Event}
    (h : (log.append e).1 = .ok recorded) :
    (log.append e).2.lastSequence = log.lastSequence + 1 := by
  unfold append at h ⊢
  simp only at h ⊢
  split at h
  · cases h
  · rfl

/-! ## Events told again -/

/-- The readings of the clock that an event shows, in the order in which they were drawn. -/
def Event.drawn (e : Event) : List Instant :=
  match e.payload with
  | .created p => [p.createdAt, e.timestamp]
  | .updated p _ _ => [p.updatedAt, e.timestamp]
  | .deleted _ _ => [e.timestamp]

/-- **A supply tells events again** if behind some draws it hands out the identifiers and the
readings that they show. -/
structure Supply.Retells (σ : Supply) (draws : Draws) (es : List Event) : Prop where
  uuid : ∀ k id, (es.map Event.id)[k]? = some id → σ.uuid (draws.uuids + k) = id
  reading : ∀ k t, (es.flatMap Event.drawn)[k]? = some t → σ.reading (draws.readings + k) = t

/-- The draws behind some events. -/
def Draws.behind (draws : Draws) (es : List Event) : Draws :=
  { draws with
    uuids := draws.uuids + es.length
    readings := draws.readings + (es.flatMap Event.drawn).length }

theorem Draws.behind_append (draws : Draws) (es fs : List Event) :
    draws.behind (es ++ fs) = (draws.behind es).behind fs := by
  simp only [behind, List.length_append, List.flatMap_append, Nat.add_assoc]

namespace Supply

variable {σ : Supply} {draws : Draws} {es fs : List Event}

theorem Retells.left (h : σ.Retells draws (es ++ fs)) : σ.Retells draws es where
  uuid k id hk := h.uuid k id <| by
    rw [List.map_append, List.getElem?_append_left (List.getElem?_eq_some_iff.mp hk).1, hk]
  reading k t hk := h.reading k t <| by
    rw [List.flatMap_append, List.getElem?_append_left (List.getElem?_eq_some_iff.mp hk).1, hk]

theorem Retells.right (h : σ.Retells draws (es ++ fs)) : σ.Retells (draws.behind es) fs where
  uuid k id hk := by
    show σ.uuid (draws.uuids + es.length + k) = id
    rw [Nat.add_assoc]
    refine h.uuid _ id ?_
    rw [List.map_append, List.getElem?_append_right (by rw [List.length_map]; omega),
      List.length_map, Nat.add_sub_cancel_left, hk]
  reading k t hk := by
    show σ.reading (draws.readings + (es.flatMap Event.drawn).length + k) = t
    rw [Nat.add_assoc]
    refine h.reading _ t ?_
    rw [List.flatMap_append, List.getElem?_append_right (by omega), Nat.add_sub_cancel_left, hk]

end Supply

namespace Service

variable {σ σ' : Supply} {s t : Service} {r : Request} {e : Event}

/-- **The same revision is made** with the same identifier and readings. -/
theorem revision_again {current candidate : Product}
    (hσ : σ'.Retells t.draws [(s.revision σ current candidate).1]) :
    t.revision σ' current candidate = ((s.revision σ current candidate).1,
      { t with draws := t.draws.behind [(s.revision σ current candidate).1] }) := by
  have huuid : σ'.uuid t.draws.uuids = σ.uuid s.draws.uuids := hσ.uuid 0 _ rfl
  have hfirst : σ'.reading t.draws.readings = σ.reading s.draws.readings := hσ.reading 0 _ rfl
  have hlast : σ'.reading (t.draws.readings + 1) = σ.reading (s.draws.readings + 1) :=
    hσ.reading 1 _ rfl
  refine Prod.ext ?_ rfl
  simp only [revision, drawReading, drawUuid, huuid, hfirst, hlast]

/-- **The same deletion is made** with the same identifier and reading. -/
theorem deletion_again {current : Product} (hσ : σ'.Retells t.draws [(s.deletion σ current).1]) :
    t.deletion σ' current = ((s.deletion σ current).1,
      { t with draws := t.draws.behind [(s.deletion σ current).1] }) := by
  have huuid : σ'.uuid t.draws.uuids = σ.uuid s.draws.uuids := hσ.uuid 0 _ rfl
  have hlast : σ'.reading t.draws.readings = σ.reading s.draws.readings := hσ.reading 0 _ rfl
  refine Prod.ext ?_ rfl
  simp only [deletion, drawReading, drawUuid, huuid, hlast]

/-- **The same is prepared** of the same live table, with the same identifier and readings. -/
theorem prepare_again (hr : r.needsLock = true) (hlive : t.live = s.live)
    (he : (s.prepare σ r).1 = .ok e) (hσ : σ'.Retells t.draws [e]) :
    t.prepare σ' r = (.ok e, { t with draws := t.draws.behind [e] }) := by
  have htarget : t.live.get? r.target = s.live.get? r.target := by rw [hlive]
  unfold prepare at he ⊢
  rw [htarget]
  rcases Request.plan_cases hr (s.live.get? r.target) with ⟨fault, hplan⟩ |
    ⟨current, -, hplan | ⟨candidate, -, hplan⟩⟩
  · rw [hplan] at he
    cases he
  · rw [hplan] at he ⊢
    cases he
    rw [make, deletion_again hσ]
  · rw [hplan] at he ⊢
    cases he
    rw [make, revision_again hσ]

/-- **A write is made again** on the same live table and log, with the same identifier and
readings. -/
theorem write_again (hr : r.needsLock = true) (hb : t.books = s.books)
    (he : (s.write σ r).1 = .ok e) (hσ : σ'.Retells t.draws [e]) :
    (t.write σ' r).1 = .ok e ∧ (t.write σ' r).2.books = (s.write σ r).2.books ∧
      (t.write σ' r).2.draws = t.draws.behind [e] := by
  obtain ⟨e₀, hp, -, rfl, -⟩ := exists_prepared he
  have hagain := prepare_again (t := t) hr (congrArg Prod.fst hb) hp ⟨hσ.uuid, hσ.reading⟩
  rw [write_of_prepare (by rw [hagain]), hagain]
  rw [write_of_prepare hp] at he ⊢
  obtain ⟨hout, hbooks⟩ := enter_of_books (s := (s.prepare σ r).2)
    (t := { t with draws := t.draws.behind [e₀] }) (hb.trans (books_prepare σ s r).symm) e₀
  exact ⟨hout.trans he, hbooks, draws_enter _ e₀⟩

end Service

/-! ## Writes that have succeeded -/

/-- **A write that has succeeded**: its place in the list, what it asked for, and its event. -/
structure Commit where
  index : Nat
  request : Request
  event : Event

/-- **Writes made one after the other**, each on the live table and the log that the one before has
left. -/
inductive Commits (b : LiveTable × EventLog) : List Commit → LiveTable × EventLog → Prop
  | nil : Commits b [] b
  | snoc {ws : List Commit} {w : Commit} {σ : Supply} {s : Service} (h : Commits b ws s.books)
      (hr : w.request.needsLock = true) (hv : w.request.check = .ok ())
      (he : (s.write σ w.request).1 = .ok w.event) :
      Commits b (ws ++ [w]) (s.write σ w.request).2.books

theorem Service.answerAll_append {σ : Supply} {cancelled : Bool} (rs rs' : List Request)
    (s : Service) : s.answerAll σ cancelled (rs ++ rs') =
      ((s.answerAll σ cancelled rs).1 ++
          ((s.answerAll σ cancelled rs).2.answerAll σ cancelled rs').1,
        ((s.answerAll σ cancelled rs).2.answerAll σ cancelled rs').2) := by
  induction rs generalizing s with
  | nil => rfl
  | cons r rs ih => simp only [List.cons_append, answerAll, ih]

/-- The answer to a request that is checked and not cancelled is a write. -/
theorem Service.answer_of_check {σ : Supply} {s : Service} {r : Request}
    (hr : r.needsLock = true) (hv : r.check = .ok ()) : s.answer σ false r =
      ((s.write σ r).1, { (s.write σ r).2 with locks := s.locks.visit r.lockKey }) := by
  simp only [answer, hv, hr, if_true, Bool.false_eq_true, if_false]

namespace Commits

variable {b b' : LiveTable × EventLog} {ws : List Commit}

/-- **The sequence numbers** of the events follow one another. -/
theorem sequence (h : Commits b ws b') :
    ws.map (·.event.sequence) = List.range' (b.2.lastSequence + 1) ws.length ∧
      b'.2.lastSequence = b.2.lastSequence + ws.length := by
  induction h with
  | nil => exact ⟨rfl, rfl⟩
  | @snoc ws w σ s h hr hv he ih =>
    obtain ⟨hsequence, hlast⟩ := ih
    obtain ⟨e, -, ha, hw, hlog⟩ := Service.exists_prepared he
    have hnext : s.log.lastSequence = b.2.lastSequence + ws.length := hlast
    have hevent : w.event.sequence = b.2.lastSequence + 1 + ws.length := by
      rw [hw]
      show s.log.lastSequence + 1 = _
      omega
    refine ⟨?_, ?_⟩
    · rw [List.map_append, List.length_append, List.length_singleton, List.range'_1_concat,
        hsequence, List.map_singleton, hevent]
    · show (s.write σ w.request).2.log.lastSequence = _
      rw [hlog, EventLog.lastSequence_append ha, List.length_append, List.length_singleton]
      omega

/-- **The log records the events** behind those that it had. -/
theorem records (h : Commits b ws b') {es : List Event} (hb : b.2.Records es) :
    b'.2.Records (es ++ ws.map Commit.event) := by
  induction h with
  | nil =>
    rw [List.map_nil, List.append_nil]
    exact hb
  | @snoc ws w σ s h hr hv he ih =>
    obtain ⟨e, -, ha, -, hlog⟩ := Service.exists_prepared he
    show (s.write σ w.request).2.log.Records _
    rw [hlog, List.map_append, ← List.append_assoc]
    rcases EventLog.Records.append ih e with ⟨-, heq⟩ | ⟨-, hok, hrec⟩
    · have hfail := congrArg Prod.fst heq
      cases hfail.symm.trans ha
    · rw [Except.ok.inj (hok.symm.trans ha)] at hrec
      exact hrec

theorem nil_eq (h : Commits b [] b') : b' = b := by
  generalize hws : ([] : List Commit) = ws at h
  cases h with
  | nil => rfl
  | snoc => exact absurd hws (List.ne_nil_of_mem (List.mem_append_right _ List.mem_cons_self)).symm

/-- The only write of a list. -/
theorem single {w : Commit} (h : Commits b [w] b') :
    ∃ (σ : Supply) (s : Service), s.books = b ∧ (s.write σ w.request).1 = .ok w.event ∧
      b' = (s.write σ w.request).2.books := by
  generalize hws : [w] = ws at h
  cases h with
  | nil => cases hws
  | @snoc ws w' σ s h hr hv he =>
    rcases List.append_eq_singleton_iff.mp hws.symm with ⟨rfl, hw⟩ | ⟨-, hw⟩
    · cases hw
      exact ⟨σ, s, h.nil_eq, he, rfl⟩
    · cases hw

/-- **Writes are made again** one by one, on the same live table and the same log. -/
theorem again (h : Commits b ws b') {σ : Supply} {t : Service} (ht : t.books = b)
    (hσ : σ.Retells t.draws (ws.map Commit.event)) :
    (t.answerAll σ false (ws.map Commit.request)).1 = ws.map (fun w => .ok w.event) ∧
      (t.answerAll σ false (ws.map Commit.request)).2.books = b' ∧
      (t.answerAll σ false (ws.map Commit.request)).2.draws =
        t.draws.behind (ws.map Commit.event) := by
  induction h with
  | nil => exact ⟨rfl, ht, rfl⟩
  | @snoc ws w σ' s h hr hv he ih =>
    rw [List.map_append] at hσ
    obtain ⟨hout, hbooks, hdraws⟩ := ih hσ.left
    have hright := hσ.right
    rw [← hdraws] at hright
    obtain ⟨hout', hbooks', hdraws'⟩ := Service.write_again hr hbooks he hright
    rw [List.map_append, List.map_append, List.map_append, Service.answerAll_append]
    simp only [List.map_cons, List.map_nil, Service.answerAll, Service.answer_of_check hr hv, hout,
      hout', true_and]
    exact ⟨hbooks', by rw [hdraws', hdraws, Draws.behind_append]⟩

end Commits

end CatalogChain
