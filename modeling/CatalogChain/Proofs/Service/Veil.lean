import CatalogChain.Proofs.Service.Completion
import CatalogChain.Proofs.Service.Runs

/-!
# What is not looked at

A candidate of an update carries two instants and a fingerprint, and an event carries an identifier.
A service looks at none of them.  To say so, they are veiled: `Request.veiled` gives every candidate
the same instants and the same fingerprint, and `Event.veiled` gives every event the same
identifier.  The veil goes over all that holds candidates or events, and it can be put on before a
step or after it (`Call.veiled_step`), and so before or after the work of a crew, a single write, a
batch, and any run of a deployment (`Deployment.veiled_run`).
-/

namespace CatalogChain

/-! ## Tables -/

section Tables
variable {α β : Type} (f : α → β)

theorem Entries.keys_map (es : List (String × α)) :
    keys (es.map fun e => (e.1, f e.2)) = keys es := by
  unfold keys
  rw [List.map_map]
  rfl

theorem Entries.get?_map (k : String) (es : List (String × α)) :
    get? k (es.map fun e => (e.1, f e.2)) = (get? k es).map f := by
  induction es with
  | nil => rfl
  | cons e es ih =>
    simp only [List.map_cons, get?]
    split_ifs
    · rfl
    · exact ih

theorem Entries.map_put (k : String) (v : α) (es : List (String × α)) :
    (put k v es).map (fun e => (e.1, f e.2)) = put k (f v) (es.map fun e => (e.1, f e.2)) := by
  induction es with
  | nil => rfl
  | cons e es ih =>
    simp only [List.map_cons, put]
    split_ifs
    · rfl
    · rw [List.map_cons, ih]

/-- The table of the values of a function. -/
def Table.map (t : Table α) : Table β :=
  ⟨t.entries.map fun e => (e.1, f e.2), by rw [Entries.keys_map]; exact t.nodup⟩

theorem Table.get?_map (t : Table α) (k : String) : (t.map f).get? k = (t.get? k).map f :=
  Entries.get?_map f k t.entries

theorem Table.map_put (t : Table α) (k : String) (v : α) :
    (t.put k v).map f = (t.map f).put k (f v) := by
  simp only [map, put, Entries.map_put]

end Tables

/-! ## Events and requests -/

/-- A supply whose identifiers are all the same. -/
def Supply.veiled (σ : Supply) : Supply := { σ with uuid := fun _ => .nil }

/-- **An event without its identifier.** -/
def Event.veiled (e : Event) : Event := { e with id := .nil }

/-- An outcome without the identifier of its event. -/
def Outcome.veiled (outcome : Outcome) : Outcome := outcome.map Event.veiled

/-- **A candidate without its bookkeeping fields**: its instants and its fingerprint. -/
def Product.veiled (p : Product) : Product :=
  { p with createdAt := .epoch, updatedAt := .epoch, fingerprint := "" }

/-- A request without the bookkeeping fields of its candidate. -/
def Request.veiled : Request → Request
  | .update candidate => .update candidate.veiled
  | r => r

theorem Request.target_veiled (r : Request) : r.veiled.target = r.target := by cases r <;> rfl

theorem Request.lockKey_veiled (r : Request) : r.veiled.lockKey = r.lockKey :=
  congrArg Product.lockKey r.target_veiled

/-! ## Logs and feeds -/

/-- A log without the identifiers of its events. -/
def EventLog.veiled (log : EventLog) : EventLog :=
  { log with histories := log.histories.map (List.map Event.veiled) }

namespace EventLog

theorem history_veiled (log : EventLog) (id : String) :
    log.veiled.history id = (log.history id).map Event.veiled := by
  show ((log.histories.map _).get? id).getD [] = ((log.histories.get? id).getD []).map _
  rw [Table.get?_map]
  cases log.histories.get? id <;> rfl

theorem insertByVersion_veiled (e : Event) (hs : List Event) :
    insertByVersion e.veiled (hs.map Event.veiled) =
      (insertByVersion e hs).map (List.map Event.veiled) := by
  induction hs with
  | nil => rfl
  | cons h hs ih =>
    have hnew : e.veiled.version = e.version := rfl
    have hold : h.veiled.version = h.version := rfl
    rw [List.map_cons]
    unfold insertByVersion
    rw [hnew, hold]
    split_ifs
    · rw [ih, Option.map_map, Option.map_map]
      rfl
    · rfl
    · rfl

/-- **Recording** looks at no identifier. -/
theorem append_veiled (log : EventLog) (e : Event) :
    log.veiled.append e.veiled = (Outcome.veiled (log.append e).1, (log.append e).2.veiled) := by
  have hinsert : insertByVersion (e.veiled.numbered (log.veiled.lastSequence + 1))
      (log.veiled.history e.veiled.entityId) =
        (insertByVersion (e.numbered (log.lastSequence + 1)) (log.history e.entityId)).map
          (List.map Event.veiled) := by
    rw [history_veiled]
    exact insertByVersion_veiled (e.numbered (log.lastSequence + 1)) (log.history e.entityId)
  unfold append
  simp only
  rw [hinsert]
  cases insertByVersion (e.numbered (log.lastSequence + 1)) (log.history e.entityId) with
  | none => rfl
  | some hs =>
    simp only [Option.map_some, veiled, Table.map_put]
    rfl

end EventLog

/-- A channel without the identifiers of its events. -/
def Channel.veiled (c : Channel) : Channel := { c with kept := c.kept.map Event.veiled }

/-- A feed without the identifiers of its events. -/
def Feed.veiled (f : Feed) : Feed :=
  { f with created := f.created.veiled, updated := f.updated.veiled, deleted := f.deleted.veiled }

theorem Channel.publish_veiled (c : Channel) (span : Nat) (e : Event) :
    c.veiled.publish span e.veiled = (c.publish span e).veiled := by
  simp only [publish, veiled, List.map_take, List.map_cons]

/-- **Publishing** looks at no identifier. -/
theorem Feed.publish_veiled (f : Feed) (e : Event) :
    f.veiled.publish e.veiled = (f.publish e).veiled := by
  have hkind : e.veiled.kind = e.kind := rfl
  unfold publish
  rw [hkind]
  cases e.kind with
  | created | updated | deleted =>
    simp only [veiled]
    rw [← Channel.publish_veiled]

/-! ## Calls -/

/-- A service without the identifiers of its events. -/
def Service.veiled (s : Service) : Service := { s with log := s.log.veiled, feed := s.feed.veiled }

/-- A stage without the identifier of its event. -/
def Stage.veiled : Stage → Stage
  | .appending lock e => .appending lock e.veiled
  | .committing lock e => .committing lock e.veiled
  | .publishing lock e => .publishing lock e.veiled
  | .releasing lock outcome => .releasing lock (Outcome.veiled outcome)
  | .finished outcome => .finished (Outcome.veiled outcome)
  | stage => stage

/-- **A call under the veil**: nothing is seen of the bookkeeping fields of its candidate and of the
identifier of its event. -/
def Call.veiled (c : Call) : Call := ⟨c.request.veiled, c.stage.veiled⟩

/-- Both of a service and a call. -/
def veilBoth (p : Service × Call) : Service × Call := (p.1.veiled, p.2.veiled)

namespace Service

variable (σ : Supply) (s : Service)

theorem creation_veiled (draft : Content) : s.veiled.creation σ.veiled draft =
    ((s.creation σ draft).1.veiled, (s.creation σ draft).2.veiled) := rfl

/-- **Of a candidate** nothing is looked at but its id, its content and its version. -/
theorem revision_veiled (current candidate : Product) :
    s.veiled.revision σ.veiled current candidate.veiled =
      ((s.revision σ current candidate).1.veiled, (s.revision σ current candidate).2.veiled) := rfl

theorem deletion_veiled (current : Product) : s.veiled.deletion σ.veiled current =
    ((s.deletion σ current).1.veiled, (s.deletion σ current).2.veiled) := rfl

end Service

namespace Call

variable (σ : Supply) (now : Nat) (cancelled : Bool) (s : Service) (c : Call)

theorem conclude_veiled (lock : Option Token) (outcome : Outcome) :
    c.veiled.conclude lock (Outcome.veiled outcome) = (c.conclude lock outcome).veiled := by
  cases lock <;> rfl

theorem isOver_veiled : c.veiled.isOver = c.isOver := by
  obtain ⟨request, stage⟩ := c
  cases stage <;> rfl

theorem isSuspended_veiled : c.veiled.isSuspended now cancelled = c.isSuspended now cancelled := by
  obtain ⟨request, stage⟩ := c
  cases stage <;> rfl

theorem wakeAt?_veiled : c.veiled.wakeAt? = c.wakeAt? := by
  obtain ⟨request, stage⟩ := c
  cases stage <;> rfl

theorem outcome?_veiled : c.veiled.outcome? = c.outcome?.map Outcome.veiled := by
  obtain ⟨request, stage⟩ := c
  cases stage <;> rfl

theorem abandon_veiled : c.veiled.abandon = c.abandon.veiled := by
  have hkey : c.veiled.request.lockKey = c.request.lockKey := c.request.lockKey_veiled
  unfold abandon
  rw [hkey]
  rfl

theorem arrive_veiled : c.veiled.arrive σ.veiled s.veiled = veilBoth (c.arrive σ s) := by
  obtain ⟨request, stage⟩ := c
  cases request with
  | create draft =>
    unfold arrive
    simp only [veiled, Request.veiled, Service.creation_veiled]
    cases draft.validate <;> rfl
  | update candidate =>
    have hvalidate : candidate.veiled.validate = candidate.validate := rfl
    unfold arrive
    simp only [veiled, Request.veiled]
    rw [hvalidate]
    cases candidate.validate <;> rfl
  | remove id => rfl

theorem attempt_veiled (n : Nat) :
    c.veiled.attempt now cancelled s.veiled n = veilBoth (c.attempt now cancelled s n) := by
  have hlocks : s.veiled.locks = s.locks := rfl
  have hsettings : s.veiled.settings = s.settings := rfl
  have hkey : c.veiled.request.lockKey = c.request.lockKey := c.request.lockKey_veiled
  have htarget : c.veiled.request.target = c.request.target := c.request.target_veiled
  unfold attempt
  rw [hlocks, hsettings, hkey, htarget, abandon_veiled]
  cases s.locks.request cancelled now c.request.lockKey s.settings.lockTtl with
  | cancelled => rfl
  | granted token locks => rfl
  | refused =>
    simp only [sleep]
    split_ifs
    · cases wait? s.settings n <;> rfl
    · rfl

theorem prepare_veiled (lock : Token) :
    c.veiled.prepare σ.veiled s.veiled lock = veilBoth (c.prepare σ s lock) := by
  have htarget : c.veiled.request.target = c.request.target := c.request.target_veiled
  have hget : s.veiled.get c.request.target = s.get c.request.target := rfl
  unfold prepare
  rw [htarget, hget]
  cases s.get c.request.target with
  | error fault => rfl
  | ok current =>
    obtain ⟨request, stage⟩ := c
    cases request with
    | create draft | remove id =>
      simp only [veiled, Request.veiled, Service.deletion_veiled]
      rfl
    | update candidate =>
      have hversion : candidate.veiled.version = candidate.version := rfl
      simp only [veiled, Request.veiled, Service.revision_veiled]
      rw [hversion]
      split_ifs <;> rfl

theorem append_veiled (lock : Option Token) (e : Event) :
    c.veiled.append s.veiled lock e.veiled = veilBoth (c.append s lock e) := by
  have hlog : s.veiled.log.append e.veiled = _ := s.log.append_veiled e
  unfold append
  rw [hlog]
  generalize s.log.append e = p
  obtain ⟨outcome, log⟩ := p
  cases outcome with
  | error fault => exact Prod.ext rfl (c.conclude_veiled lock (.error fault))
  | ok recorded => rfl

/-- **A step under the veil** is the step, veiled. -/
theorem step_veiled :
    c.veiled.step σ.veiled now cancelled s.veiled = veilBoth (c.step σ now cancelled s) := by
  obtain ⟨request, stage⟩ := c
  cases stage with
  | arrived => exact arrive_veiled σ s ⟨request, .arrived⟩
  | attempting n => exact attempt_veiled now cancelled s ⟨request, .attempting n⟩ n
  | asleep n wakeAt =>
    have habandon := abandon_veiled ⟨request, .asleep n wakeAt⟩
    simp only [veiled, Stage.veiled] at habandon ⊢
    simp only [step, habandon]
    split_ifs <;> rfl
  | reading lock => exact prepare_veiled σ s ⟨request, .reading lock⟩ lock
  | appending lock e => exact append_veiled s ⟨request, .appending lock e⟩ lock e
  | committing lock e => rfl
  | publishing lock e =>
    have hfeed : { s.veiled with feed := s.feed.veiled.publish e.veiled } =
        Service.veiled { s with feed := s.feed.publish e } := by
      rw [Feed.publish_veiled]
      rfl
    exact Prod.ext hfeed (conclude_veiled ⟨request, .publishing lock e⟩ lock (.ok e))
  | releasing lock outcome =>
    simp only [veiled, Stage.veiled, step, Request.lockKey_veiled]
    rfl
  | finished outcome => rfl
  | broken => rfl

theorem settle_veiled (n : Nat) : c.veiled.settle σ.veiled now cancelled n s.veiled =
    veilBoth (c.settle σ now cancelled n s) := by
  induction n generalizing s c with
  | zero => rfl
  | succ n ih =>
    rw [settle_succ, settle_succ, isSuspended_veiled, step_veiled]
    split_ifs
    · rfl
    · exact ih _ _

theorem resume_veiled :
    c.veiled.resume σ.veiled now cancelled s.veiled = veilBoth (c.resume σ now cancelled s) :=
  c.settle_veiled σ now cancelled s _

end Call

/-! ## Crews -/

/-- A deployment without the identifiers of its events. -/
def Deployment.veiled (d : Deployment) : Deployment := { d with service := d.service.veiled }

/-- A job under the veil. -/
def Job.veiled (j : Job) : Job := { j with call := j.call.veiled }

/-- A crew under the veil. -/
def Crew.veiled (c : Crew) : Crew :=
  { c with
    deployment := c.deployment.veiled
    queue := c.queue.map Job.veiled
    ready := c.ready.map Job.veiled
    sleeping := c.sleeping.map Job.veiled
    ended := c.ended.map (Prod.map id (Option.map Outcome.veiled)) }

theorem Job.wakeAt_veiled (j : Job) : j.veiled.wakeAt = j.wakeAt :=
  congrArg (·.getD 0) j.call.wakeAt?_veiled

namespace Crew

variable (σ : Supply) (c : Crew)

theorem insertSleeper_veiled (job : Job) (js : List Job) :
    insertSleeper job.veiled (js.map Job.veiled) = (insertSleeper job js).map Job.veiled := by
  induction js with
  | nil => rfl
  | cons j js ih =>
    rw [List.map_cons]
    unfold insertSleeper
    rw [job.wakeAt_veiled, j.wakeAt_veiled]
    split_ifs
    · rfl
    · rw [ih, List.map_cons]

theorem work_veiled (job : Job) (ready : List Job) :
    c.veiled.work σ.veiled job.veiled (ready.map Job.veiled) = (c.work σ job ready).veiled := by
  have hresume : resumed σ.veiled c.veiled job.veiled = veilBoth (resumed σ c job) :=
    job.call.resume_veiled σ c.deployment.now c.cancelled c.deployment.service
  have hover : (resumed σ.veiled c.veiled job.veiled).2.isOver = (resumed σ c job).2.isOver := by
    rw [hresume]
    exact (resumed σ c job).2.isOver_veiled
  by_cases h : (resumed σ c job).2.isOver = true
  · rw [work_of_isOver ready h, work_of_isOver _ (hover.trans h), hresume]
    simp only [veiled, veilBoth, List.map_append, List.map_take, List.map_drop, List.map_cons,
      Call.outcome?_veiled]
    rfl
  · rw [work_of_not_isOver ready h, work_of_not_isOver _ (hover ▸ h), hresume]
    simp only [veiled, ← insertSleeper_veiled]
    rfl

theorem cancel_veiled : c.veiled.cancel = c.cancel.veiled := by
  simp only [cancel, veiled, List.map_append, List.map_nil]

theorem wake_veiled (first : Job) : c.veiled.wake first.veiled = (c.wake first).veiled := by
  have hnext : c.veiled.nextInstant first.veiled = c.nextInstant first := by
    unfold nextInstant
    rw [first.wakeAt_veiled]
    rfl
  have hwake : ((fun j : Job => (j.wakeAt ≤ c.nextInstant first : Bool)) ∘ Job.veiled) =
      fun j => (j.wakeAt ≤ c.nextInstant first : Bool) :=
    funext fun j => by rw [Function.comp_apply, j.wakeAt_veiled]
  simp only [wake, hnext]
  simp only [veiled, List.takeWhile_map, List.dropWhile_map, hwake]
  rfl

theorem step_veiled : c.veiled.step σ.veiled = (c.step σ).map veiled := by
  have hready : c.veiled.ready = c.ready.map Job.veiled := rfl
  have hsleeping : c.veiled.sleeping = c.sleeping.map Job.veiled := rfl
  have hdue : c.veiled.isDue = c.isDue := rfl
  have hprompt : c.veiled.prompt = c.prompt := rfl
  unfold step
  rw [hready, hsleeping, hdue, hprompt, cancel_veiled]
  cases c.ready with
  | cons job ready =>
    simp only [List.map_cons, work_veiled, Option.map_some]
    split_ifs <;> rfl
  | nil =>
    cases c.sleeping with
    | cons first sleeping =>
      simp only [List.map_cons, List.map_nil, wake_veiled, Option.map_some]
      split_ifs <;> rfl
    | nil => rfl

/-- **The work of a crew under the veil** is the work, veiled. -/
theorem run_veiled (n : Nat) : c.veiled.run σ.veiled n = (c.run σ n).veiled := by
  induction n generalizing c with
  | zero => rfl
  | succ n ih =>
    unfold run
    rw [step_veiled]
    cases c.step σ with
    | none => rfl
    | some c' => exact ih c'

theorem ofRequests_veiled (d : Deployment) (cancellation : Cancellation) (prompt : Bool)
    (places : Nat) (requests : List Request) :
    ofRequests d.veiled cancellation prompt places (requests.map Request.veiled) =
      (ofRequests d cancellation prompt places requests).veiled := by
  have hjobs : ((requests.map Request.veiled).mapIdx fun index request =>
      Job.mk index (.ofRequest request)) =
        (requests.mapIdx fun index request => ⟨index, .ofRequest request⟩).map Job.veiled := by
    refine List.ext_getElem (by simp) fun i hi hi' => ?_
    rw [List.getElem_mapIdx, List.getElem_map, List.getElem_map, List.getElem_mapIdx]
    rfl
  simp only [ofRequests, hjobs, veiled, List.map_take, List.map_drop]
  rfl

theorem outcome?_veiled (i : Nat) : c.veiled.outcome? i = (c.outcome? i).map Outcome.veiled := by
  have hfind : (fun e : Nat × Option Outcome => (e.1 = i : Bool)) ∘
      Prod.map id (Option.map Outcome.veiled) = fun e => (e.1 = i : Bool) := rfl
  have hended : c.veiled.ended = c.ended.map (Prod.map id (Option.map Outcome.veiled)) := rfl
  unfold outcome?
  rw [hended, List.find?_map, hfind]
  cases c.ended.find? _ with
  | none => rfl
  | some e => rfl

end Crew

/-! ## Deployments -/

/-- An action without the identifiers of the events of a feed, and without the bookkeeping fields of
a candidate. -/
def Action.veiled : Action → Action
  | .arrive request => .arrive request.veiled
  | .disturb locks feed => .disturb locks feed.veiled
  | a => a

/-- **An operation under the veil.** -/
def Operation.veiled : Operation → Operation
  | .write cancellation request => .write cancellation request.veiled
  | .batch cancellation requests => .batch cancellation (requests.map Request.veiled)
  | .bunch actions => .bunch (actions.map Action.veiled)
  | .surround locks feed now roster sweeper => .surround locks feed.veiled now roster sweeper

/-- A writer under the veil. -/
def Writer.veiled (x : Writer) : Writer := { x with call := x.call.veiled }

/-- A world under the veil. -/
def World.veiled (w : World) : World := ⟨w.service.veiled, w.writers.map Writer.veiled⟩

theorem Writer.step_veiled (σ : Supply) (now : Nat) (cancelled : Bool) (s : Service) (x : Writer) :
    x.veiled.step σ.veiled now cancelled s.veiled =
      ((x.step σ now cancelled s).1.veiled, (x.step σ now cancelled s).2.veiled) := by
  have hsees : x.call.veiled.sees s.veiled = x.call.sees s := by
    obtain ⟨⟨request, stage⟩, seen⟩ := x
    cases stage with
    | reading lock => exact congrArg s.live.get? request.target_veiled
    | _ => rfl
  have hstep := x.call.step_veiled σ now cancelled s
  simp only [step, veiled, hstep, hsees]
  rfl

namespace World

variable (σ : Supply) (w : World)

theorem act_veiled (action : Action) :
    w.veiled.act σ.veiled action.veiled = (w.act σ action).veiled := by
  cases action with
  | arrive request =>
    simp only [act, veiled, Action.veiled, List.map_append]
    rfl
  | disturb locks feed => rfl
  | advance i now cancelled =>
    have hwriter : w.veiled.writers[i]? = w.writers[i]?.map Writer.veiled := List.getElem?_map ..
    cases hi : w.writers[i]? with
    | none =>
      rw [hi] at hwriter
      rw [act_advance_of_none hi]
      exact act_advance_of_none hwriter
    | some x =>
      rw [hi] at hwriter
      rw [act_advance_of_some hi]
      refine (act_advance_of_some hwriter).trans ?_
      show World.mk (x.veiled.step σ.veiled now cancelled w.service.veiled).1
        ((w.writers.map Writer.veiled).set i
          (x.veiled.step σ.veiled now cancelled w.service.veiled).2) = _
      rw [Writer.step_veiled, ← List.map_set]
      rfl

theorem run_veiled (actions : List Action) :
    w.veiled.run σ.veiled (actions.map Action.veiled) = (w.run σ actions).veiled := by
  induction actions generalizing w with
  | nil => rfl
  | cons action actions ih =>
    show (w.veiled.act σ.veiled action.veiled).run σ.veiled _ = _
    rw [act_veiled]
    exact ih _

end World

namespace Deployment

variable (σ : Supply) (d : Deployment) (cancellation : Cancellation)

/-- **A single write under the veil** is the write, veiled. -/
theorem perform?_veiled (r : Request) : d.veiled.perform? σ.veiled cancellation r.veiled =
    (d.perform? σ cancellation r).map (Prod.map Outcome.veiled veiled) := by
  have hcrew : Crew.ofRequests d.veiled cancellation false 1 [r.veiled] = _ :=
    Crew.ofRequests_veiled d cancellation false 1 [r]
  have hsettings : d.veiled.service.settings = d.service.settings := rfl
  unfold perform?
  simp only [hcrew, hsettings, Crew.run_veiled, Crew.outcome?_veiled, Option.map_map]
  rfl

/-- **A batch under the veil** has the results that it has. -/
theorem performBatch?_veiled (requests : List Request) :
    d.veiled.performBatch? σ.veiled cancellation (requests.map Request.veiled) =
      (d.performBatch? σ cancellation requests).map (Prod.map id veiled) := by
  have hresult (r : Request) (outcome : Option Outcome) :
      BatchResult.ofOutcome r.veiled (outcome.map Outcome.veiled) =
        BatchResult.ofOutcome r outcome := by
    cases outcome with
    | none => cases r <;> rfl
    | some outcome => cases outcome <;> cases r <;> rfl
  have hsettings : d.veiled.service.settings = d.service.settings := rfl
  have hresults (f : Nat → Option Outcome) (is : List Nat) :
      List.zipWith BatchResult.ofOutcome (requests.map Request.veiled)
          (is.map fun i => (f i).map Outcome.veiled) =
        List.zipWith BatchResult.ofOutcome requests (is.map f) := by
    have hmap := List.map_map (g := Option.map Outcome.veiled) (f := f) (l := is)
    rw [Function.comp_def] at hmap
    rw [← hmap, List.zipWith_map]
    simp only [hresult]
  unfold performBatch? performBatch performAll
  simp only [hsettings, Crew.ofRequests_veiled, Crew.run_veiled, List.length_map,
    funext (Crew.outcome?_veiled _), hresults]
  split_ifs <;> rfl

theorem operate_veiled (op : Operation) :
    d.veiled.operate σ.veiled op.veiled = (d.operate σ op).veiled := by
  cases op with
  | write cancellation request =>
    simp only [operate, Operation.veiled, perform?_veiled]
    cases d.perform? σ cancellation request <;> rfl
  | batch cancellation requests =>
    simp only [operate, Operation.veiled, performBatch?_veiled]
    cases d.performBatch? σ cancellation requests <;> rfl
  | bunch actions =>
    have hworld : (⟨d.veiled.service, []⟩ : World).run σ.veiled (actions.map Action.veiled) = _ :=
      World.run_veiled σ ⟨d.service, []⟩ actions
    have hcalls (w : World) : w.veiled.calls.all Call.isOver = w.calls.all Call.isOver := by
      simp only [World.calls, World.veiled, List.all_map, List.map_map]
      exact congrArg _ (funext fun x => x.call.isOver_veiled)
    simp only [operate, Operation.veiled, hworld, hcalls]
    split_ifs <;> rfl
  | surround locks feed now roster sweeper => rfl

/-- **A run under the veil** is the run, veiled. -/
theorem run_veiled (ops : List Operation) :
    d.veiled.run σ.veiled (ops.map Operation.veiled) = (d.run σ ops).veiled := by
  induction ops generalizing d with
  | nil => rfl
  | cons op ops ih =>
    show (d.veiled.operate σ.veiled op.veiled).run σ.veiled _ = _
    rw [operate_veiled]
    exact ih _

end Deployment

end CatalogChain
