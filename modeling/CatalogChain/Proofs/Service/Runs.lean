import CatalogChain.Proofs.Service.Crews
import CatalogChain.Proofs.Service.World
import CatalogChain.Service.Batch

/-!
# Runs of a deployment

A deployment goes through single writes, batches, bunches of writes whose steps are mixed in any
way, and whatever happens to its locks, its feed and its clock meanwhile (`Deployment.run`).  A crew
goes on with a call until the call can only wait, and a call that waits has no event to commit and
none to publish (`Agrees.resume`).  So between the steps of a crew the log and the live table agree
with no call in view (`Crew.Orderly`), all that was recorded is published (`Crew.Announces`), and the
agreement holds between the operations of a deployment as well (`Agrees.run`).
-/

namespace CatalogChain

/-! ## Calls at one instant -/

/-- **A call that waits** to go on and has no event in hand. -/
structure Call.Idle (c : Call) : Prop where
  sane : c.Sane
  hand : c.hand = .empty

theorem Call.idle_ofRequest (request : Request) : (ofRequest request).Idle := ⟨trivial, rfl⟩

/-- A call that is suspended has ended, or it sleeps. -/
theorem Call.over_or_hand_empty {now : Nat} {cancelled : Bool} {c : Call}
    (h : c.isSuspended now cancelled = true) : c.isOver = true ∨ c.hand = .empty := by
  unfold isSuspended at h
  unfold isOver hand
  split at h
  · next hs => exact .inl (by rw [hs])
  · next hs => exact .inl (by rw [hs])
  · next hs => exact .inr (by rw [hs])
  · cases h

theorem Call.hand_ne_pending_of_isOver {c : Call} (h : c.isOver = true) (p : Event) :
    c.hand ≠ .pending p := by
  intro hp
  obtain ⟨lock, hs⟩ := hand_eq_pending_iff.mp hp
  rw [isOver, hs] at h
  cases h

/-- The event that a call has published, if it has come so far. -/
def Call.told (c : Call) : List Event :=
  match c.stage with
  | .releasing _ (.ok e) | .finished (.ok e) => [e]
  | _ => []

theorem Call.told_conclude_error (c : Call) (lock : Option Token) (fault : Fault) :
    (c.conclude lock (.error fault)).told = [] := by
  cases lock <;> rfl

theorem Call.told_conclude_ok (c : Call) (lock : Option Token) (e : Event) :
    (c.conclude lock (.ok e)).told = [e] := by
  cases lock <;> rfl

/-- **The feed shows what a call has published**, and every move keeps that. -/
theorem Call.Moves.feed_eq {σ : Supply} {now : Nat} {cancelled : Bool} {s s' : Service}
    {c c' : Call} (h : Moves σ now cancelled s c s' c') {feed : Feed}
    (hf : s.feed = c.told.foldl Feed.publish feed) :
    s'.feed = c'.told.foldl Feed.publish feed := by
  cases h with
  | invalid hs | draft hs | seek hs | grant hs | retry hs | crash hs | despair hs | wake hs
  | revise hs | bury hs | record hs | commit hs =>
    rw [told, hs] at hf
    exact hf
  | give hs =>
    rcases hs with hs | ⟨wakeAt, hs⟩ <;> rw [told, hs] at hf <;> exact hf
  | missing hs | conflict hs | reject hs =>
    rw [told, hs] at hf
    rw [told_conclude_error]
    exact hf
  | publish hs =>
    rw [told, hs] at hf
    rw [told_conclude_ok]
    exact congrArg (Feed.publish · _) hf
  | @release lock outcome hs =>
    rw [told, hs] at hf
    cases outcome <;> exact hf
  | doze | ended => exact hf

/-- A call that is suspended has published what it has recorded. -/
theorem Call.told_eq_written {now : Nat} {cancelled : Bool} {c : Call}
    (h : c.isSuspended now cancelled = true) : c.told = c.written := by
  unfold isSuspended at h
  unfold told written hand
  split at h
  · next outcome hs =>
    rw [hs]
    cases outcome <;> rfl
  · next hs => rw [hs]
  · next hs => rw [hs]
  · cases h

theorem Call.Idle.written_eq {c : Call} (h : c.Idle) : c.written = [] := by
  rw [written, h.hand]

theorem Call.told_eq_nil {c : Call} (h : c.written = []) : c.told = [] := by
  unfold told
  split
  · next hs =>
    rw [written, hand, hs] at h
    cases h
  · next hs =>
    rw [written, hand, hs] at h
    cases h
  · rfl

/-- A call that has ended has recorded its outcome, if that is an event. -/
theorem Call.written_of_isOver {c : Call} (h : c.isOver = true) :
    c.written = (c.outcome?.bind Except.toOption).toList := by
  unfold isOver at h
  unfold written hand outcome?
  split at h
  · next outcome hs =>
    rw [hs]
    cases outcome <;> rfl
  · next hs => rw [hs]; rfl
  · cases h

namespace Agrees

variable {σ : Supply} {now : Nat} {cancelled : Bool} {es : List Event} {s : Service} {c : Call}

/-- Any number of steps of a call. -/
theorem settle (h : Agrees es s [c]) (hc : c.written = []) (n : Nat) :
    Agrees (es ++ (c.settle σ now cancelled n s).2.written) (c.settle σ now cancelled n s).1
      [(c.settle σ now cancelled n s).2] := by
  refine Call.settle_induction (Q := fun s c => Agrees (es ++ c.written) s [c])
    (fun s c _ hc => ?_) (by rwa [hc, List.append_nil]) n
  obtain ⟨fs, hstep, hwritten⟩ := hc.moves (i := 0) rfl (c.step_moves σ now cancelled s)
  rwa [hwritten, ← List.append_assoc]

/-- **A call goes on until it can only wait**: then it has ended, or is idle.  What it has recorded
meanwhile it has published. -/
theorem resume (h : Agrees es s []) (hc : c.Idle) (σ : Supply) (now : Nat) (cancelled : Bool) :
    Agrees (es ++ (c.resume σ now cancelled s).2.written) (c.resume σ now cancelled s).1 [] ∧
      (c.resume σ now cancelled s).1.feed =
        (c.resume σ now cancelled s).2.written.foldl Feed.publish s.feed ∧
      ((c.resume σ now cancelled s).2.isOver = true ∨ (c.resume σ now cancelled s).2.Idle) := by
  have hone : Agrees es s [c] := h.arrive hc.sane hc.hand
  have hsettle : Agrees (es ++ (c.resume σ now cancelled s).2.written)
      (c.resume σ now cancelled s).1 [(c.resume σ now cancelled s).2] :=
    hone.settle hc.written_eq (Call.longestRun s.settings)
  have hsus : (c.resume σ now cancelled s).2.isSuspended now cancelled = true :=
    Call.isSuspended_resume
  have hsane := hsettle.sane _ (List.mem_singleton_self _)
  have hend := Call.over_or_hand_empty hsus
  have hfeed : (c.resume σ now cancelled s).1.feed =
      (c.resume σ now cancelled s).2.told.foldl Feed.publish s.feed := by
    refine Call.settle_induction (Q := fun s' c' => s'.feed = c'.told.foldl Feed.publish s.feed)
      (fun s' c' _ hf => (c'.step_moves σ now cancelled s').feed_eq hf) ?_ _
    rw [Call.told_eq_nil hc.written_eq]
    rfl
  rw [Call.told_eq_written hsus] at hfeed
  refine ⟨hsettle.leave fun d hd p hp => ?_, hfeed, hend.imp_right fun hhand => ⟨hsane, hhand⟩⟩
  rw [List.mem_singleton.mp hd] at hp
  rcases hend with hover | hhand
  · exact Call.hand_ne_pending_of_isOver hover p hp
  · cases hhand.symm.trans hp

end Agrees

/-! ## Crews -/

/-- **A crew in order**: its service agrees with a list of events, and all of its jobs are idle. -/
structure Crew.Orderly (es : List Event) (c : Crew) : Prop where
  agrees : Agrees es c.deployment.service []
  queue : ∀ j ∈ c.queue, j.call.Idle
  ready : ∀ j ∈ c.ready, j.call.Idle
  sleeping : ∀ j ∈ c.sleeping, j.call.Idle

/-- The events of the writes that have succeeded so far, in the order in which they have ended. -/
def Crew.announced (c : Crew) : List Event :=
  c.ended.reverse.filterMap fun p => p.2.bind Except.toOption

/-- **A crew announces events**: they are published one after the other, and each is the outcome of a
write that has ended meanwhile. -/
structure Crew.Announces (c : Crew) (fs : List Event) (c' : Crew) : Prop where
  feed : c'.deployment.service.feed = fs.foldl Feed.publish c.deployment.service.feed
  announced : c'.announced = c.announced ++ fs

namespace Crew

variable {σ : Supply} {es : List Event} {c c' : Crew}

theorem Announces.refl (c : Crew) : c.Announces [] c := ⟨rfl, (List.append_nil _).symm⟩

theorem Announces.trans {c₁ c₂ c₃ : Crew} {fs gs : List Event} (h : c₁.Announces fs c₂)
    (h' : c₂.Announces gs c₃) : c₁.Announces (fs ++ gs) c₃ where
  feed := by rw [h'.feed, h.feed, List.foldl_append]
  announced := by rw [h'.announced, h.announced, List.append_assoc]

/-- A job goes on. -/
theorem Orderly.work (h : c.Orderly es) {job : Job} {ready : List Job}
    (hready : c.ready = job :: ready) :
    ∃ fs, (c.work σ job ready).Orderly (es ++ fs) ∧ c.Announces fs (c.work σ job ready) := by
  have hjobs := h.ready
  rw [hready] at hjobs
  have hrest : ∀ j ∈ ready, j.call.Idle := fun j hj => hjobs j (List.mem_cons_of_mem job hj)
  obtain ⟨hagrees, hfeed, hend⟩ :=
    h.agrees.resume (hjobs job (List.mem_cons_self ..)) σ c.deployment.now c.cancelled
  refine ⟨(job.call.resume σ c.deployment.now c.cancelled c.deployment.service).2.written, ?_⟩
  unfold Crew.work
  simp only
  split_ifs with hover
  · refine ⟨⟨hagrees, fun j hj => h.queue j (List.mem_of_mem_drop hj), fun j hj => ?_,
      h.sleeping⟩, hfeed, ?_⟩
    · rcases List.mem_append.mp hj with hj | hj
      · exact hrest j hj
      · exact h.queue j (List.mem_of_mem_take hj)
    · rw [Call.written_of_isOver hover, announced, List.reverse_cons, List.filterMap_append]
      simp only [List.filterMap_cons, List.filterMap_nil]
      split
      · next hnone =>
        rw [hnone]
        rfl
      · next e hsome =>
        rw [hsome]
        rfl
  · have hidle := hend.resolve_left hover
    refine ⟨⟨hagrees, h.queue, hrest, fun j hj => ?_⟩, hfeed, ?_⟩
    · rcases mem_insertSleeper hj with rfl | hj
      · exact hidle
      · exact h.sleeping j hj
    · rw [hidle.written_eq, List.append_nil]
      rfl

theorem Orderly.cancel (h : c.Orderly es) : c.cancel.Orderly es where
  agrees := h.agrees
  queue := h.queue
  ready j hj := by
    rcases List.mem_append.mp hj with hj | hj
    · exact h.ready j hj
    · exact h.sleeping j hj
  sleeping _ hj := by cases hj

/-- The order of a crew does not depend on what has happened to its service. -/
theorem Orderly.moved (h : c.Orderly es) {fs : List Event} {d : Deployment}
    (hd : Agrees fs d.service []) : Orderly fs { c with deployment := d } :=
  ⟨hd, h.queue, h.ready, h.sleeping⟩

theorem Orderly.wake (h : c.Orderly es) (first : Job) : (c.wake first).Orderly es where
  agrees := h.agrees.elsewhere rfl rfl
  queue := h.queue
  ready j hj := h.sleeping j ((List.takeWhile_prefix _).subset hj)
  sleeping j hj := h.sleeping j ((List.dropWhile_suffix _).subset hj)

/-- **Every step of a crew keeps the order**, and announces what it records. -/
theorem Orderly.step (h : c.Orderly es) (hs : c.step σ = some c') :
    ∃ fs, c'.Orderly (es ++ fs) ∧ c.Announces fs c' := by
  rcases step_cases hs with ⟨job, ready, hready, rfl⟩ | ⟨-, rfl⟩ | ⟨first, -, -, -, -, rfl⟩
  · exact h.work hready
  · exact ⟨[], by rw [List.append_nil]; exact h.cancel, rfl, (List.append_nil _).symm⟩
  · exact ⟨[], by rw [List.append_nil]; exact h.wake first, rfl, (List.append_nil _).symm⟩

theorem Orderly.run (h : c.Orderly es) (n : Nat) :
    ∃ fs, (c.run σ n).Orderly (es ++ fs) ∧ c.Announces fs (c.run σ n) := by
  refine run_induction (Q := fun c' => ∃ fs, c'.Orderly (es ++ fs) ∧ c.Announces fs c')
    (fun c' c'' hc hs => ?_) ⟨[], by rwa [List.append_nil], .refl c⟩ n
  obtain ⟨fs, hc, hfs⟩ := hc
  obtain ⟨gs, hc', hgs⟩ := hc.step hs
  exact ⟨fs ++ gs, by rwa [← List.append_assoc], hfs.trans hgs⟩

theorem orderly_ofRequests {d : Deployment} (h : Agrees es d.service [])
    (cancellation : Cancellation) (prompt : Bool) (places : Nat) (requests : List Request) :
    (ofRequests d cancellation prompt places requests).Orderly es := by
  have hjobs : ∀ j ∈ requests.mapIdx fun index request => Job.mk index (.ofRequest request),
      j.call.Idle := by
    intro j hj
    obtain ⟨i, hi, rfl⟩ := List.mem_mapIdx.mp hj
    exact Call.idle_ofRequest _
  refine ⟨h, fun j hj => hjobs j (List.mem_of_mem_drop hj),
    fun j hj => hjobs j (List.mem_of_mem_take hj), fun j hj => ?_⟩
  cases hj

end Crew

/-! ## Deployments -/

/-- **What a deployment can go through.** -/
inductive Operation where
  /-- A single write. -/
  | write (cancellation : Cancellation) (request : Request)
  /-- A batch of writes. -/
  | batch (cancellation : Cancellation) (requests : List Request)
  /-- Writes whose steps are mixed in any way; they count if all of them end. -/
  | bunch (actions : List Action)
  /-- Anything at all happens to the locks, the feed, the clock and the sweepers. -/
  | surround (locks : LockTable) (feed : Feed) (now : Nat) (roster : Roster)
      (sweeper : Option Nat)

namespace Deployment

/-- **One operation.**  One that is not carried out leaves the deployment as it is. -/
def operate (σ : Supply) (d : Deployment) : Operation → Deployment
  | .write cancellation request => ((d.perform? σ cancellation request).map (·.2)).getD d
  | .batch cancellation requests => ((d.performBatch? σ cancellation requests).map (·.2)).getD d
  | .bunch actions =>
    let w := World.run σ ⟨d.service, []⟩ actions
    if w.calls.all Call.isOver then { d with service := w.service } else d
  | .surround locks feed now roster sweeper =>
    { service := { d.service with locks, feed }, now, roster, sweeper }

/-- **A run**: operations one after the other. -/
def run (σ : Supply) (d : Deployment) (ops : List Operation) : Deployment :=
  ops.foldl (operate σ) d

theorem run_append (σ : Supply) (d : Deployment) (ops later : List Operation) :
    d.run σ (ops ++ later) = (d.run σ ops).run σ later := List.foldl_append

end Deployment

namespace Agrees

variable {σ : Supply} {es : List Event} {d d' : Deployment}

/-- **A single write** keeps the agreement, whatever its outcome. -/
theorem perform? (h : Agrees es d.service []) {cancellation : Cancellation} {request : Request}
    {outcome : Outcome} (hd : d.perform? σ cancellation request = some (outcome, d')) :
    ∃ fs, Agrees (es ++ fs) d'.service [] := by
  unfold Deployment.perform? at hd
  obtain ⟨o, -, ho⟩ := Option.map_eq_some_iff.mp hd
  cases ho
  obtain ⟨fs, hrun, -⟩ := (Crew.orderly_ofRequests h cancellation false 1 [request]).run (σ := σ)
    (Crew.longestWork d.service.settings 1)
  exact ⟨fs, hrun.agrees⟩

/-- **A batch** keeps the agreement, whatever its results. -/
theorem performBatch? (h : Agrees es d.service []) {cancellation : Cancellation}
    {requests : List Request} {results : List BatchResult}
    (hd : d.performBatch? σ cancellation requests = some (results, d')) :
    ∃ fs, Agrees (es ++ fs) d'.service [] := by
  unfold Deployment.performBatch? at hd
  split_ifs at hd
  cases hd
  obtain ⟨fs, hrun, -⟩ := (Crew.orderly_ofRequests h cancellation true d.service.settings.places
    requests).run (σ := σ) (Crew.longestWork d.service.settings requests.length)
  exact ⟨fs, hrun.agrees⟩

/-- **Every operation keeps the agreement.** -/
theorem operate (h : Agrees es d.service []) (op : Operation) :
    ∃ fs, Agrees (es ++ fs) (d.operate σ op).service [] := by
  have hstay : ∃ fs, Agrees (es ++ fs) d.service [] := ⟨[], by rwa [List.append_nil]⟩
  cases op with
  | write cancellation request =>
    simp only [Deployment.operate]
    cases hd : d.perform? σ cancellation request with
    | none => exact hstay
    | some r => exact h.perform? hd
  | batch cancellation requests =>
    simp only [Deployment.operate]
    cases hd : d.performBatch? σ cancellation requests with
    | none => exact hstay
    | some r => exact h.performBatch? hd
  | bunch actions =>
    simp only [Deployment.operate]
    split_ifs with hover
    · obtain ⟨fs, hrun, -⟩ := (World.accounted_nil h).run (σ := σ) actions
      refine ⟨fs, hrun.agrees.leave fun c hc => ?_⟩
      exact Call.hand_ne_pending_of_isOver (List.all_eq_true.mp hover c hc)
    · exact hstay
  | surround locks feed now roster sweeper =>
    refine ⟨[], ?_⟩
    rw [List.append_nil]
    exact h.elsewhere rfl rfl

theorem run (h : Agrees es d.service []) (ops : List Operation) :
    ∃ fs, Agrees (es ++ fs) (d.run σ ops).service [] := by
  induction ops generalizing es d with
  | nil => exact ⟨[], by rwa [List.append_nil]⟩
  | cons op ops ih =>
    obtain ⟨fs, hop⟩ := h.operate (σ := σ) op
    obtain ⟨gs, hrest⟩ := ih hop
    refine ⟨fs ++ gs, ?_⟩
    rw [← List.append_assoc]
    exact hrest

end Agrees

end CatalogChain
