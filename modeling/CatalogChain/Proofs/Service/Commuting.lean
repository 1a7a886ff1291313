import CatalogChain.Proofs.LiveTable.Listing
import CatalogChain.Proofs.Service.Serial

/-!
# Writes on different products commute

An update or a deletion reads and writes one cell of a service: what is live under its id, the
history of its id, and the lock on it (`Service.cell`).  All other cells stay as they are
(`Service.cell_answer_of_ne`), and what becomes of its own depends on that cell alone, but for what
is drawn: the identifier of the event, the readings of the clock, and the number that the log gives
out (`Service.answer_congr`).

So the order of writes on different products does not matter (`Deployment.commuting`), neither of
two writes nor of all the writes of a batch.  Products are taken to stand in the live table under
their own ids, which they do behind every run (`Deployment.keyed_run`).
-/

namespace CatalogChain

/-! ## Cells -/

/-- A product without the reading of its last change. -/
def Product.undated (p : Product) : Product := { p with updatedAt := .epoch }

/-- A payload without the reading of the last change. -/
def Payload.undated : Payload → Payload
  | created p => created p.undated
  | updated p previous changes => updated p.undated previous changes
  | deleted p previous => deleted p.undated previous

/-- **An event without what was drawn for it**: without its identifier, its sequence number, and
the readings of the clock. -/
def Event.bare (e : Event) : Event :=
  ⟨.nil, e.entityId, e.version, 0, .epoch, e.payload.undated⟩

/-- An outcome without what was drawn for it. -/
def Outcome.bare (outcome : Outcome) : Outcome := outcome.map Event.bare

/-- **What a service holds about one id**: its live value, its history, and the lock on it. -/
structure Cell where
  product : Option Product
  history : List Event
  lock : Option Lock

/-- A cell without what was drawn for its events. -/
def Cell.bare (c : Cell) : Cell :=
  ⟨c.product.map Product.undated, c.history.map Event.bare, c.lock⟩

/-- The cell of an id. -/
def Service.cell (s : Service) (id : String) : Cell :=
  ⟨s.live.get? id, s.log.history id, s.locks.locks.get? (Product.lockKey id)⟩

/-- **Services are alike** if they hold the same about every id, but for what was drawn for the
events. -/
def Service.Alike (s t : Service) : Prop := ∀ id, (s.cell id).bare = (t.cell id).bare

theorem keyed_invariant (σ : Supply) :
    Service.Invariant σ (fun s => s.live.Keyed) fun _ => True where
  step s c now cancelled hs _ := by
    have hmoves := c.step_moves σ now cancelled s
    refine ⟨?_, trivial⟩
    generalize c.step σ now cancelled s = p at hmoves
    obtain ⟨s', c'⟩ := p
    cases hmoves with
    | commit => exact hs.apply _
    | _ => exact hs
  surround _ _ _ hs := hs

/-- **Behind every run products stand under their own ids.** -/
theorem Deployment.keyed_run (σ : Supply) (settings : WriteSettings) (feed : Feed)
    (ops : List Operation) : ((fresh settings feed).run σ ops).service.live.Keyed :=
  (keyed_invariant σ).run (d := fresh settings feed) (fun _ _ h => by cases h)
    fun _ _ _ _ => trivial

/-! ## What a write does to cells -/

theorem Product.lockKey_injective : Function.Injective Product.lockKey := by
  intro a b h
  exact String.append_right_inj _ |>.mp h

theorem Event.version_of_bare {e f : Event} (h : e.bare = f.bare) : e.version = f.version :=
  (congrArg Event.version h : e.bare.version = f.bare.version)

theorem Event.entityId_of_bare {e f : Event} (h : e.bare = f.bare) : e.entityId = f.entityId :=
  (congrArg Event.entityId h : e.bare.entityId = f.bare.entityId)

namespace EventLog

variable {log log' : EventLog} {e f : Event}

theorem append_of_none
    (h : insertByVersion (e.numbered (log.lastSequence + 1)) (log.history e.entityId) = none) :
    log.append e = (.error (.duplicateVersion e.entityId e.version), log) := by
  simp only [append, h]

theorem append_of_some {hs : List Event}
    (h : insertByVersion (e.numbered (log.lastSequence + 1)) (log.history e.entityId) = some hs) :
    (log.append e).1 = .ok (e.numbered (log.lastSequence + 1)) ∧
      ∀ id, (log.append e).2.history id = if e.entityId = id then hs else log.history id := by
  simp only [append, h, true_and]
  exact fun id => history_put ..

/-- Where an event comes in a history depends on its version. -/
theorem insertByVersion_congr (h : e.bare = f.bare) (hs : List Event) :
    (insertByVersion e hs).map (List.map Event.bare) =
      (insertByVersion f hs).map (List.map Event.bare) := by
  induction hs with
  | nil => exact congrArg (fun e => some [e]) h
  | cons x hs ih =>
    unfold insertByVersion
    rw [Event.version_of_bare h]
    split_ifs
    · have hcons := congrArg (Option.map (x.bare :: ·)) ih
      rw [Option.map_map, Option.map_map] at hcons ⊢
      exact hcons
    · rfl
    · exact congrArg (fun e => some (e :: x.bare :: hs.map Event.bare)) h

/-- **What is recorded of an event** depends on the history of its product. -/
theorem append_congr (h : e.bare = f.bare)
    (hhistory : log.history e.entityId = log'.history e.entityId) :
    Outcome.bare (log.append e).1 = Outcome.bare (log'.append f).1 ∧
      ((log.append e).2.history e.entityId).map Event.bare =
        ((log'.append f).2.history e.entityId).map Event.bare := by
  have hid := Event.entityId_of_bare h
  have hcongr := insertByVersion_congr (e := e.numbered (log.lastSequence + 1))
    (f := f.numbered (log'.lastSequence + 1)) h (log.history e.entityId)
  cases he : insertByVersion (e.numbered (log.lastSequence + 1)) (log.history e.entityId) with
  | none =>
    cases hf : insertByVersion (f.numbered (log'.lastSequence + 1)) (log.history e.entityId) with
    | none =>
      rw [hhistory, hid] at hf
      rw [append_of_none he, append_of_none hf, hid, Event.version_of_bare h, ← hid, hhistory]
      exact ⟨rfl, rfl⟩
    | some hs' =>
      rw [he, hf] at hcongr
      cases hcongr
  | some hs =>
    cases hf : insertByVersion (f.numbered (log'.lastSequence + 1)) (log.history e.entityId) with
    | none =>
      rw [he, hf] at hcongr
      cases hcongr
    | some hs' =>
      rw [he, hf] at hcongr
      rw [hhistory, hid] at hf
      obtain ⟨hout, hhist⟩ := append_of_some he
      obtain ⟨hout', hhist'⟩ := append_of_some hf
      rw [hout, hout', hhist, hhist', if_pos rfl, if_pos hid.symm]
      exact ⟨congrArg Except.ok h, Option.some.inj hcongr⟩

/-- The histories of other products stay as they are. -/
theorem history_append_of_ne {id : String} (h : e.entityId ≠ id) :
    (log.append e).2.history id = log.history id := by
  cases hi : insertByVersion (e.numbered (log.lastSequence + 1)) (log.history e.entityId) with
  | none => rw [append_of_none hi]
  | some hs => rw [(append_of_some hi).2, if_neg h]

end EventLog

/-- **An event of the product** with an id. -/
structure Event.About (id : String) (e : Event) : Prop where
  entity : e.entityId = id
  snapshot : e.snapshot.id = id

namespace LiveTable

variable {e f : Event} {id : String}

/-- What is live behind an event of a product is what the event says. -/
theorem apply_congr (live live' : LiveTable) (he : e.About id) (hf : f.About id)
    (h : e.bare = f.bare) :
    ((live.apply e).get? id).map Product.undated =
      ((live'.apply f).get? id).map Product.undated := by
  have hpayload : e.payload.undated = f.payload.undated := congrArg Event.payload h
  have hkind : ∀ p : Payload, p.undated.kind = p.kind := fun p => by cases p <;> rfl
  have hsnapshot : ∀ p : Payload, p.undated.snapshot = p.snapshot.undated := fun p => by
    cases p <;> rfl
  have hk : e.kind = f.kind := by
    unfold Event.kind
    rw [← hkind, hpayload, hkind]
  have hs : e.snapshot.undated = f.snapshot.undated := by
    unfold Event.snapshot
    rw [← hsnapshot, hpayload, hsnapshot]
  rw [get?_apply live (he.snapshot.trans he.entity.symm),
    get?_apply live' (hf.snapshot.trans hf.entity.symm), if_pos he.entity, if_pos hf.entity, hk]
  split_ifs
  · rfl
  · exact congrArg some hs

theorem get?_apply_of_ne (live : LiveTable) (he : e.About id) {id' : String} (h : id' ≠ id) :
    (live.apply e).get? id' = live.get? id' := by
  rw [get?_apply live (he.snapshot.trans he.entity.symm), he.entity, if_neg h.symm]

end LiveTable

namespace Service

variable {σ τ : Supply} {s t : Service} {r : Request} {e f : Event} {id : String}

/-- Recording an event leaves the cells of other products. -/
theorem cell_enter_of_ne (he : e.About id) {id' : String} (h : id' ≠ id) :
    (s.enter e).2.cell id' = s.cell id' := by
  have hhistory : (s.log.append e).2.history id' = s.log.history id' :=
    EventLog.history_append_of_ne (he.entity.trans_ne h.symm)
  unfold enter
  split
  · rw [cell, cell, hhistory]
  · next recorded hok =>
    have hrecorded : recorded.About id := by
      rw [EventLog.eq_of_append_ok hok]
      exact ⟨he.entity, he.snapshot⟩
    rw [cell, cell, hhistory, LiveTable.get?_apply_of_ne s.live hrecorded h]

/-- **What becomes of an event** depends on the cell of its product. -/
theorem enter_congr (he : e.About id) (hf : f.About id) (h : e.bare = f.bare)
    (hcell : s.cell id = t.cell id) :
    Outcome.bare (s.enter e).1 = Outcome.bare (t.enter f).1 ∧
      ((s.enter e).2.cell id).bare = ((t.enter f).2.cell id).bare := by
  obtain ⟨hlive, hhistory, hlock⟩ := Cell.mk.inj hcell
  have hhistory' : s.log.history e.entityId = t.log.history e.entityId := by
    rw [he.entity]
    exact hhistory
  obtain ⟨hout, hhist⟩ := EventLog.append_congr h hhistory'
  rw [he.entity] at hhist
  unfold enter
  cases ha : (s.log.append e).1 with
  | error fault =>
    cases hb : (t.log.append f).1 with
    | error fault' =>
      rw [ha, hb] at hout
      exact ⟨hout, by simp only [cell, Cell.bare, hhist, hlive, hlock]⟩
    | ok recorded' =>
      rw [ha, hb] at hout
      cases hout
  | ok recorded =>
    cases hb : (t.log.append f).1 with
    | error fault' =>
      rw [ha, hb] at hout
      cases hout
    | ok recorded' =>
      rw [ha, hb] at hout
      have hrecorded := EventLog.eq_of_append_ok ha
      have hrecorded' := EventLog.eq_of_append_ok hb
      have hbare : recorded.bare = recorded'.bare := Except.ok.inj hout
      have habout : recorded.About id := by
        rw [hrecorded]
        exact ⟨he.entity, he.snapshot⟩
      have habout' : recorded'.About id := by
        rw [hrecorded']
        exact ⟨hf.entity, hf.snapshot⟩
      have hlives := LiveTable.apply_congr s.live t.live habout habout' hbare
      exact ⟨hout, by simp only [cell, Cell.bare, hhist, hlives, hlock]⟩

theorem cell_of_books (hbooks : s.books = t.books) (hlocks : s.locks = t.locks) (id : String) :
    s.cell id = t.cell id := by
  obtain ⟨hlive, hlog⟩ := Prod.mk.inj hbooks
  rw [cell, cell, hlive, hlog, hlocks]

theorem cell_prepare (σ : Supply) (s : Service) (r : Request) (id : String) :
    (s.prepare σ r).2.cell id = s.cell id :=
  cell_of_books (books_prepare σ s r) (s.locks_prepare σ r) id

/-- Revisions of one product to one candidate differ in what was drawn. -/
theorem bare_revision (current candidate : Product) :
    (s.revision σ current candidate).1.bare = (t.revision τ current candidate).1.bare := rfl

theorem bare_deletion (current : Product) :
    (s.deletion σ current).1.bare = (t.deletion τ current).1.bare := rfl

/-- **What is prepared** depends on the live value of the product. -/
theorem prepare_congr (h : s.live.get? r.target = t.live.get? r.target) (hr : r.needsLock = true) :
    Outcome.bare (s.prepare σ r).1 = Outcome.bare (t.prepare τ r).1 := by
  unfold prepare
  rw [← h]
  rcases Request.plan_cases hr (s.live.get? r.target) with ⟨fault, hplan⟩ |
    ⟨current, -, hplan | ⟨candidate, -, hplan⟩⟩
  · rw [hplan]
    rfl
  · rw [hplan]
    exact congrArg Except.ok (bare_deletion current)
  · rw [hplan]
    exact congrArg Except.ok (bare_revision current candidate)

section Target
variable (hr : r.needsLock = true)
include hr

/-- What is prepared is an event of the product that the request is about. -/
theorem about_of_prepare (hkeyed : s.live.Keyed) (h : (s.prepare σ r).1 = .ok e) :
    e.About r.target := by
  unfold prepare at h
  rcases Request.plan_cases hr (s.live.get? r.target) with ⟨fault, hplan⟩ |
    ⟨current, hlive, hplan | ⟨candidate, hid, hplan⟩⟩
  · rw [hplan] at h
    cases h
  · rw [hplan] at h
    cases h
    exact ⟨hkeyed _ current hlive, hkeyed _ current hlive⟩
  · rw [hplan] at h
    cases h
    exact ⟨hid, hid⟩

/-- A write leaves the cells of other products. -/
theorem cell_write_of_ne (hkeyed : s.live.Keyed) {id : String} (h : id ≠ r.target) :
    (s.write σ r).2.cell id = s.cell id := by
  unfold write
  cases hp : (s.prepare σ r).1 with
  | error fault => exact cell_prepare σ s r id
  | ok e => exact (cell_enter_of_ne (about_of_prepare hr hkeyed hp) h).trans (cell_prepare σ s r id)

/-- What becomes of a write depends on the cell of its product. -/
theorem write_congr (hs : s.live.Keyed) (ht : t.live.Keyed)
    (hcell : s.cell r.target = t.cell r.target) :
    Outcome.bare (s.write σ r).1 = Outcome.bare (t.write τ r).1 ∧
      ((s.write σ r).2.cell r.target).bare = ((t.write τ r).2.cell r.target).bare := by
  have hprepare := prepare_congr (σ := σ) (τ := τ) (congrArg Cell.product hcell) hr
  have hcell' : (s.prepare σ r).2.cell r.target = (t.prepare τ r).2.cell r.target :=
    (cell_prepare ..).trans (hcell.trans (cell_prepare ..).symm)
  unfold write
  cases hp : (s.prepare σ r).1 with
  | error fault =>
    cases hq : (t.prepare τ r).1 with
    | error fault' =>
      rw [hp, hq] at hprepare
      exact ⟨hprepare, congrArg Cell.bare hcell'⟩
    | ok f =>
      rw [hp, hq] at hprepare
      cases hprepare
  | ok e =>
    cases hq : (t.prepare τ r).1 with
    | error fault' =>
      rw [hp, hq] at hprepare
      cases hprepare
    | ok f =>
      rw [hp, hq] at hprepare
      exact enter_congr (about_of_prepare hr hs hp) (about_of_prepare hr ht hq)
        (Except.ok.inj hprepare) hcell'

/-- **The answer to a request**: it fails at once and changes nothing, or it is a write, with the
lock visited. -/
theorem answer_cases (cancelled : Bool) :
    (∃ fault, ∀ σ s, answer σ cancelled s r = (.error fault, s)) ∨
      ∀ σ s, answer σ cancelled s r =
        ((write σ s r).1, { (write σ s r).2 with locks := s.locks.visit r.lockKey }) := by
  cases hv : r.check with
  | error v => exact .inl ⟨.ofViolation v, fun σ s => by simp only [answer, hv]⟩
  | ok =>
    cases cancelled with
    | true => exact .inl ⟨.cancelled r.lockKey, fun σ s => by simp only [answer, hv, hr, if_true]⟩
    | false => exact .inr fun σ s => answer_of_check hr hv

/-- **An answer leaves the cells of other products.** -/
theorem cell_answer_of_ne (hkeyed : s.live.Keyed) {cancelled : Bool} {id : String}
    (h : id ≠ r.target) : (s.answer σ cancelled r).2.cell id = s.cell id := by
  rcases answer_cases hr cancelled with ⟨fault, hanswer⟩ | hanswer
  · rw [hanswer]
  · obtain ⟨hlive, hhistory, -⟩ := Cell.mk.inj (cell_write_of_ne (σ := σ) hr hkeyed h)
    have hlock : (s.locks.visit r.lockKey).locks.get? (Product.lockKey id) =
        s.locks.locks.get? (Product.lockKey id) :=
      (Table.get?_erase ..).trans (if_neg fun hkey => h (Product.lockKey_injective hkey).symm)
    rw [hanswer, cell, cell, ← hlock]
    exact congrArg₂ (Cell.mk · · _) hlive hhistory

/-- **The answer to a request** depends on the cell of its product. -/
theorem answer_congr (hs : s.live.Keyed) (ht : t.live.Keyed) (cancelled : Bool)
    (hcell : s.cell r.target = t.cell r.target) :
    Outcome.bare (s.answer σ cancelled r).1 = Outcome.bare (t.answer τ cancelled r).1 ∧
      ((s.answer σ cancelled r).2.cell r.target).bare =
        ((t.answer τ cancelled r).2.cell r.target).bare := by
  rcases answer_cases hr cancelled with ⟨fault, hanswer⟩ | hanswer
  · rw [hanswer, hanswer]
    exact ⟨rfl, congrArg Cell.bare hcell⟩
  · obtain ⟨hout, hbare⟩ := write_congr (σ := σ) (τ := τ) hr hs ht hcell
    obtain ⟨hlive, hhistory, -⟩ := Cell.mk.inj hbare
    have hlock : ∀ locks : LockTable,
        (locks.visit r.lockKey).locks.get? (Product.lockKey r.target) = none := fun locks =>
      (Table.get?_erase ..).trans (if_pos rfl)
    rw [hanswer, hanswer]
    refine ⟨hout, ?_⟩
    simp only [cell, Cell.bare, hlock]
    exact congrArg₂ (Cell.mk · · none) hlive hhistory

theorem keyed_answer (hkeyed : s.live.Keyed) (cancelled : Bool) :
    (s.answer σ cancelled r).2.live.Keyed := by
  have hwrite : (s.write σ r).2.live.Keyed := by
    have hlive : (s.prepare σ r).2.live = s.live := congrArg Prod.fst (books_prepare σ s r)
    unfold write
    split
    · rw [hlive]
      exact hkeyed
    · unfold enter
      split
      · rw [hlive]
        exact hkeyed
      · rw [hlive]
        exact hkeyed.apply _
  rcases answer_cases hr cancelled with ⟨fault, hanswer⟩ | hanswer
  · rw [hanswer]
    exact hkeyed
  · rw [hanswer]
    exact hwrite

end Target

end Service

/-! ## Lists of writes on different products -/

/-- **Writes on different products** that are there already. -/
structure Request.Apart (rs : List Request) : Prop where
  needs : ∀ r ∈ rs, r.needsLock = true
  targets : (rs.map Request.target).Nodup

theorem Request.Apart.perm {rs rs' : List Request} (h : Request.Apart rs) (hp : rs'.Perm rs) :
    Request.Apart rs' :=
  ⟨fun r hr => h.needs r (hp.subset hr), (hp.map _).nodup_iff.mpr h.targets⟩

/-- **Each write of a list finds its own cell as it was at first**, and nobody else touches it. -/
structure Service.Separate (σ : Supply) (cancelled : Bool) (s : Service) (rs : List Request) :
    Prop where
  outcomes : (s.answerAll σ cancelled rs).1.map Outcome.bare =
    rs.map fun r => Outcome.bare (s.answer σ cancelled r).1
  own : ∀ r ∈ rs, ((s.answerAll σ cancelled rs).2.cell r.target).bare =
    ((s.answer σ cancelled r).2.cell r.target).bare
  others : ∀ id, id ∉ rs.map Request.target → (s.answerAll σ cancelled rs).2.cell id = s.cell id

theorem Service.separate (σ : Supply) (cancelled : Bool) {rs : List Request} (h : Request.Apart rs)
    {s : Service} (hkeyed : s.live.Keyed) : s.Separate σ cancelled rs := by
  induction rs generalizing s with
  | nil => exact ⟨rfl, fun r hr => absurd hr List.not_mem_nil, fun id _ => rfl⟩
  | cons r rs ih =>
    have hr := h.needs r (List.mem_cons_self ..)
    obtain ⟨hfresh, hnodup⟩ := List.nodup_cons.mp h.targets
    have hneeds : ∀ r' ∈ rs, r'.needsLock = true := fun r' hr' =>
      h.needs r' (List.mem_cons_of_mem r hr')
    have hne : ∀ r' ∈ rs, r'.target ≠ r.target := fun r' hr' heq =>
      hfresh (heq ▸ List.mem_map_of_mem hr')
    have hafter := keyed_answer (σ := σ) hr hkeyed cancelled
    have hrest := ih ⟨hneeds, hnodup⟩ hafter
    -- the later writes find their cells as they were before the first one
    have hcongr : ∀ r' ∈ rs, _ := fun r' hr' =>
      answer_congr (σ := σ) (τ := σ) (hneeds r' hr') hafter hkeyed cancelled
        (cell_answer_of_ne (σ := σ) hr hkeyed (hne r' hr'))
    refine ⟨?_, fun r' hr' => ?_, fun id hid => ?_⟩
    · rw [answerAll_cons, List.map_cons, List.map_cons, hrest.outcomes]
      exact congrArg _ (List.map_congr_left fun r' hr' => (hcongr r' hr').1)
    · rcases List.mem_cons.mp hr' with rfl | hr'
      · exact congrArg Cell.bare (hrest.others _ hfresh)
      · exact (hrest.own r' hr').trans (hcongr r' hr').2
    · rw [List.map_cons, List.mem_cons, not_or] at hid
      exact (hrest.others id hid.2).trans (cell_answer_of_ne hr hkeyed hid.1)

theorem BatchResult.ofOutcome_bare (r : Request) (outcome : Outcome) :
    ofOutcome r (some (Outcome.bare outcome)) = ofOutcome r (some outcome) := by
  cases outcome with
  | error fault => rfl
  | ok e => cases r <;> rfl

namespace Deployment

variable {d : Deployment} {σ τ : Supply} {cancellation cancellation' : Cancellation}
  {r r' : Request} {requests requests' : List Request}

/-- **Two single writes**, one after the other, each with its own cancellation. -/
def performPair? (σ : Supply) (d : Deployment) (first second : Cancellation × Request) :
    Option ((Outcome × Outcome) × Deployment) :=
  (d.perform? σ first.1 first.2).bind fun (outcome, d) =>
    (d.perform? σ second.1 second.2).map fun (outcome', d) => ((outcome, outcome'), d)

/-- **Writes on different products commute** in a deployment, as long as nobody else holds their
locks.  Each of them touches only the cell of its own product.  Two of them have the same outcomes
in either order and leave services that are alike, and the results of a batch go with its
requests, whatever their order, and it leaves services that are alike.  Each order has its own
supply, since what is drawn depends on it. -/
structure Commuting (d : Deployment) : Prop where
  alone : ∀ (σ : Supply) (cancellation : Cancellation) (r : Request), r.needsLock = true →
    d.service.Unhindered d.now [r] →
    ∃ outcome d', d.perform? σ cancellation r = some (outcome, d') ∧
      ∀ id, id ≠ r.target → d'.service.cell id = d.service.cell id
  pair : ∀ (σ τ : Supply) (cancellation cancellation' : Cancellation) (r r' : Request),
    r.needsLock = true → r'.needsLock = true → r.target ≠ r'.target →
    d.service.Unhindered d.now [r, r'] →
    ∃ first second d₁ first' second' d₂,
      d.performPair? σ (cancellation, r) (cancellation', r') = some ((first, second), d₁) ∧
      d.performPair? τ (cancellation', r') (cancellation, r) = some ((second', first'), d₂) ∧
      Outcome.bare first = Outcome.bare first' ∧ Outcome.bare second = Outcome.bare second' ∧
      d₁.service.Alike d₂.service
  permuted : ∀ (σ τ : Supply) (cancellation : Cancellation) (requests requests' : List Request),
    Request.Apart requests → requests'.Perm requests → d.service.Unhindered d.now requests →
    (∀ t, cancellation = .due t → d.now < t) → d.service.settings.places ≤ Crew.maxPlaces →
    ∃ results d₁ results' d₂,
      d.performBatch? σ cancellation requests = some (results, d₁) ∧
      d.performBatch? τ cancellation requests' = some (results', d₂) ∧
      results.length = requests.length ∧ results'.length = requests'.length ∧
      (requests'.zip results').Perm (requests.zip results) ∧ d₁.service.Alike d₂.service

theorem performPair?_eq_answer (hfree : d.service.Unhindered d.now [r, r']) :
    d.performPair? σ (cancellation, r) (cancellation', r') =
      some (((d.service.answer σ (cancellation = .already) r).1,
          ((d.service.answer σ (cancellation = .already) r).2.answer σ
            (cancellation' = .already) r').1),
        { d with service := ((d.service.answer σ (cancellation = .already) r).2.answer σ
            (cancellation' = .already) r').2 }) := by
  have hfirst : d.service.Unhindered d.now [r] := fun x hx =>
    hfree x (List.mem_cons.mpr (.inl (List.mem_singleton.mp hx)))
  have hsecond := perform?_eq_answer (σ := σ) cancellation'
    (d := { d with service := (d.service.answer σ (cancellation = .already) r).2 })
    (hfree.tail.answer r)
  simp only [performPair?, perform?_eq_answer cancellation hfirst, Option.bind_some, hsecond,
    Option.map_some]

/-- **Two writes on different products leave services that are alike** in either order. -/
theorem alike_pair (hkeyed : d.service.live.Keyed) (hr : r.needsLock = true)
    (hr' : r'.needsLock = true) (hne : r.target ≠ r'.target) (c c' : Bool) :
    Outcome.bare (d.service.answer σ c r).1 =
        Outcome.bare ((d.service.answer τ c' r').2.answer τ c r).1 ∧
      ∀ id, id ≠ r'.target →
        (((d.service.answer σ c r).2.answer σ c' r').2.cell id).bare =
          (((d.service.answer τ c' r').2.answer τ c r).2.cell id).bare := by
  have hfirst := Service.keyed_answer (σ := σ) hr hkeyed c
  have hsecond := Service.keyed_answer (σ := τ) hr' hkeyed c'
  obtain ⟨hout, hown⟩ := Service.answer_congr (σ := σ) (τ := τ) hr hkeyed hsecond c
    (Service.cell_answer_of_ne (σ := τ) hr' hkeyed hne).symm
  refine ⟨hout, fun id hid => ?_⟩
  rw [Service.cell_answer_of_ne hr' hfirst hid]
  by_cases hid' : id = r.target
  · rw [hid']
    exact hown
  · rw [Service.cell_answer_of_ne hr hkeyed hid', Service.cell_answer_of_ne hr hsecond hid',
      Service.cell_answer_of_ne hr' hkeyed hid]

/-- The results of writes on different products, each by itself. -/
theorem results_of_apart (h : Request.Apart requests) (hkeyed : d.service.live.Keyed)
    (cancelled : Bool) :
    List.zipWith BatchResult.ofOutcome requests
        ((d.service.answerAll σ cancelled requests).1.map some) =
      requests.map fun r =>
        .ofOutcome r (some (Outcome.bare (d.service.answer σ cancelled r).1)) := by
  have houtcomes := (Service.separate σ cancelled h hkeyed).outcomes
  calc List.zipWith BatchResult.ofOutcome requests
        ((d.service.answerAll σ cancelled requests).1.map some)
      = List.zipWith (fun r outcome => BatchResult.ofOutcome r (some outcome)) requests
          ((d.service.answerAll σ cancelled requests).1.map Outcome.bare) := by
        rw [List.zipWith_map_right, List.zipWith_map_right]
        simp only [BatchResult.ofOutcome_bare]
    _ = _ := by
        rw [houtcomes, List.zipWith_map_right, List.zipWith_self]

/-- The order of writes on different products does not matter to the cells. -/
theorem alike_answerAll (h : Request.Apart requests) (hperm : requests'.Perm requests)
    (hkeyed : d.service.live.Keyed) (cancelled : Bool) :
    (d.service.answerAll σ cancelled requests).2.Alike
      (d.service.answerAll τ cancelled requests').2 := by
  have hsep := Service.separate σ cancelled h hkeyed
  have hsep' := Service.separate τ cancelled (h.perm hperm) hkeyed
  intro id
  by_cases hid : id ∈ requests.map Request.target
  · obtain ⟨r, hr, rfl⟩ := List.mem_map.mp hid
    have hsame := (Service.answer_congr (σ := σ) (τ := τ) (h.needs r hr) hkeyed hkeyed cancelled
      rfl).2
    rw [hsep.own r hr, hsep'.own r (hperm.symm.subset hr), hsame]
  · have hid' : id ∉ requests'.map Request.target := fun hmem => hid ((hperm.map _).subset hmem)
    rw [hsep.others id hid, hsep'.others id hid']

/-- **Writes on different products commute.** -/
theorem commuting (hkeyed : d.service.live.Keyed) : d.Commuting where
  alone σ cancellation r hr hfree :=
    ⟨_, _, perform?_eq_answer cancellation hfree, fun id hid =>
      Service.cell_answer_of_ne hr hkeyed hid⟩
  pair σ τ cancellation cancellation' r r' hr hr' hne hfree := by
    have hfree' : d.service.Unhindered d.now [r', r] := fun x hx =>
      hfree x (List.mem_pair.mpr (List.mem_pair.mp hx).symm)
    obtain ⟨hout, hcells⟩ := alike_pair (σ := σ) (τ := τ) hkeyed hr hr' hne
      (cancellation = .already) (cancellation' = .already)
    obtain ⟨hout', hcells'⟩ := alike_pair (σ := τ) (τ := σ) hkeyed hr' hr hne.symm
      (cancellation' = .already) (cancellation = .already)
    refine ⟨_, _, _, _, _, _, performPair?_eq_answer hfree, performPair?_eq_answer hfree', hout,
      hout'.symm, fun id => ?_⟩
    -- no id is that of both products
    by_cases hid : id = r'.target
    · exact (hcells' id (fun h => hne (h.symm.trans hid))).symm
    · exact hcells id hid
  permuted σ τ cancellation requests requests' h hperm hfree hcalm hplaces := by
    have hfree' : d.service.Unhindered d.now requests' := fun r hr => hfree r (hperm.subset hr)
    have hresults := results_of_apart (σ := σ) h hkeyed (cancellation = .already)
    have hresults' := results_of_apart (σ := τ) (h.perm hperm) hkeyed (cancellation = .already)
    have hsame : ∀ r ∈ requests',
        BatchResult.ofOutcome r (some (Outcome.bare
          (d.service.answer τ (cancellation = .already) r).1)) =
        .ofOutcome r (some (Outcome.bare
          (d.service.answer σ (cancellation = .already) r).1)) := fun r hr => by
      rw [(Service.answer_congr (σ := σ) (τ := τ) (h.needs r (hperm.subset hr)) hkeyed hkeyed
        (cancellation = .already) rfl).1]
    rw [List.map_congr_left hsame] at hresults'
    refine ⟨_, _, _, _, performBatch?_eq_answerAll cancellation hfree hcalm hplaces,
      performBatch?_eq_answerAll cancellation hfree' hcalm hplaces, ?_, ?_, ?_,
      alike_answerAll h hperm hkeyed (cancellation = .already)⟩
    · rw [hresults, List.length_map]
    · rw [hresults', List.length_map]
    · rw [hresults, hresults', ← List.map_prod_left_eq_zip, ← List.map_prod_left_eq_zip]
      exact hperm.map _

theorem commuting_sample : sample.service.live.Keyed ∧
    sample.service.Unhindered sample.now [.update (Product.sample 89950 2 "wh-2"), .remove "x"] ∧
    sample.Commuting := by
  have hkeyed : sample.service.live.Keyed :=
    keyed_run .sample {} default (Operation.sample.take 1)
  exact ⟨hkeyed, by decide +kernel, commuting hkeyed⟩

end Deployment

end CatalogChain
