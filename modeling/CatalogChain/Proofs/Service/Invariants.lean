import CatalogChain.Proofs.Service.Runs

/-!
# Invariants of runs

What every step of a call keeps, of the service and of the call itself, and what does not depend on
locks and feed (`Service.Invariant`), holds behind every run of a deployment that starts with it, as
long as all requests that come are within it (`Service.Invariant.run`): whoever makes the steps, a
crew or many writers, and in whatever order.

The jobs of a crew have their turns one after the other, and in its turn a job goes on until it can
only wait.  So for crews it is enough that whole turns keep an invariant
(`Service.TurnInvariant.crew`); in the middle of a turn it need not hold.
-/

namespace CatalogChain

/-- **An invariant** of services and of the calls that work on them. -/
structure Service.Invariant (σ : Supply) (I : Service → Prop) (J : Call → Prop) : Prop where
  step : ∀ (s : Service) (c : Call) (now : Nat) (cancelled : Bool), I s → J c →
    I (c.step σ now cancelled s).1 ∧ J (c.step σ now cancelled s).2
  surround : ∀ (s : Service) (locks : LockTable) (feed : Feed), I s → I { s with locks, feed }

/-- **An invariant of turns**: a call that goes on until it can only wait keeps it, and remains
within it unless it has ended then. -/
structure Service.TurnInvariant (σ : Supply) (I : Service → Prop) (J : Call → Prop) : Prop where
  resume : ∀ (s : Service) (c : Call) (now : Nat) (cancelled : Bool), I s → J c →
    I (c.resume σ now cancelled s).1 ∧
      (¬ (c.resume σ now cancelled s).2.isOver = true → J (c.resume σ now cancelled s).2)
  surround : ∀ (s : Service) (locks : LockTable) (feed : Feed), I s → I { s with locks, feed }

/-- The requests of an action. -/
def Action.requests : Action → List Request
  | .arrive request => [request]
  | .advance .. | .disturb .. => []

/-- The requests of an operation. -/
def Operation.requests : Operation → List Request
  | .write _ request => [request]
  | .batch _ requests => requests
  | .bunch actions => actions.flatMap Action.requests
  | .surround .. => []

/-- A crew within an invariant, with all of its jobs. -/
structure Crew.Within (I : Service → Prop) (J : Call → Prop) (c : Crew) : Prop where
  service : I c.deployment.service
  queue : ∀ j ∈ c.queue, J j.call
  ready : ∀ j ∈ c.ready, J j.call
  sleeping : ∀ j ∈ c.sleeping, J j.call

/-- A world within an invariant, with all of its writers. -/
structure World.Within (I : Service → Prop) (J : Call → Prop) (w : World) : Prop where
  service : I w.service
  writers : ∀ x ∈ w.writers, J x.call

/-! ## Crews -/

namespace Crew

variable {I : Service → Prop} {J : Call → Prop} {c : Crew}

theorem Within.cancel (h : c.Within I J) : c.cancel.Within I J := by
  refine ⟨h.service, h.queue, fun j hj => ?_, fun _ hj => by cases hj⟩
  rcases List.mem_append.mp hj with hj | hj
  · exact h.ready j hj
  · exact h.sleeping j hj

theorem within_ofRequests {d : Deployment} (hd : I d.service) {requests : List Request}
    (hr : ∀ r ∈ requests, J (.ofRequest r)) (cancellation : Cancellation) (prompt : Bool)
    (places : Nat) : (ofRequests d cancellation prompt places requests).Within I J := by
  have hjobs : ∀ j ∈ requests.mapIdx fun index request => Job.mk index (.ofRequest request),
      J j.call := by
    intro j hj
    obtain ⟨i, hi, rfl⟩ := List.mem_mapIdx.mp hj
    exact hr _ (List.getElem_mem hi)
  exact ⟨hd, fun j hj => hjobs j (List.mem_of_mem_drop hj),
    fun j hj => hjobs j (List.mem_of_mem_take hj), fun _ hj => by cases hj⟩

end Crew

namespace Service.TurnInvariant

variable {σ : Supply} {I : Service → Prop} {J : Call → Prop} (hI : TurnInvariant σ I J)
include hI

theorem work {c : Crew} (h : c.Within I J) {job : Job} {ready : List Job}
    (hready : c.ready = job :: ready) : (c.work σ job ready).Within I J := by
  have hjobs := h.ready
  rw [hready] at hjobs
  have hrest : ∀ j ∈ ready, J j.call := fun j hj => hjobs j (List.mem_cons_of_mem job hj)
  obtain ⟨hs, hc⟩ := hI.resume _ _ c.deployment.now c.cancelled h.service
    (hjobs job List.mem_cons_self)
  unfold Crew.work
  simp only
  split_ifs with hover
  · refine ⟨hs, fun j hj => h.queue j (List.mem_of_mem_drop hj), fun j hj => ?_, h.sleeping⟩
    rcases List.mem_append.mp hj with hj | hj
    · exact hrest j hj
    · exact h.queue j (List.mem_of_mem_take hj)
  · refine ⟨hs, h.queue, hrest, fun j hj => ?_⟩
    rcases Crew.mem_insertSleeper hj with rfl | hj
    · exact hc hover
    · exact h.sleeping j hj

theorem step {c c' : Crew} (h : c.Within I J) (hs : c.step σ = some c') : c'.Within I J := by
  rcases Crew.step_cases hs with ⟨job, ready, hready, rfl⟩ | ⟨-, rfl⟩ | ⟨first, -, -, -, -, rfl⟩
  · exact hI.work h hready
  · exact h.cancel
  · exact ⟨hI.surround _ _ _ h.service, h.queue,
      fun j hj => h.sleeping j ((List.takeWhile_prefix _).subset hj),
      fun j hj => h.sleeping j ((List.dropWhile_suffix _).subset hj)⟩

/-- **What every turn keeps, a crew keeps.** -/
theorem crew {c : Crew} (h : c.Within I J) (n : Nat) : (c.run σ n).Within I J :=
  Crew.run_induction (fun _ _ hc hs => hI.step hc hs) h n

theorem write {d : Deployment} (h : I d.service) {request : Request} (hr : J (.ofRequest request))
    (cancellation : Cancellation) :
    I (((d.perform? σ cancellation request).map (·.2)).getD d).service := by
  have hone : ∀ r ∈ [request], J (.ofRequest r) := fun r hr' => List.mem_singleton.mp hr' ▸ hr
  have hcrew := hI.crew (Crew.within_ofRequests h hone cancellation false 1)
    (Crew.longestWork d.service.settings 1)
  simp only [Deployment.perform?, Option.map_map]
  cases Crew.outcome? _ 0 with
  | none => exact h
  | some outcome => exact hcrew.service

theorem batch {d : Deployment} (h : I d.service) {requests : List Request}
    (hr : ∀ r ∈ requests, J (.ofRequest r)) (cancellation : Cancellation) :
    I (((d.performBatch? σ cancellation requests).map (·.2)).getD d).service := by
  have hcrew := hI.crew (Crew.within_ofRequests h hr cancellation true d.service.settings.places)
    (Crew.longestWork d.service.settings requests.length)
  simp only [Deployment.performBatch?]
  split_ifs
  · exact hcrew.service
  · exact h

end Service.TurnInvariant

namespace Service.Invariant

variable {σ : Supply} {I : Service → Prop} {J : Call → Prop} (hI : Invariant σ I J)
include hI

/-- What every step keeps, every turn keeps. -/
theorem turn : TurnInvariant σ I J where
  resume s c now cancelled hs hc := by
    have hturn : I (c.resume σ now cancelled s).1 ∧ J (c.resume σ now cancelled s).2 :=
      Call.settle_induction (Q := fun s c => I s ∧ J c)
        (fun s c _ h => hI.step s c now cancelled h.1 h.2) ⟨hs, hc⟩ _
    exact ⟨hturn.1, fun _ => hturn.2⟩
  surround := hI.surround

/-! ## Worlds -/

theorem act {w : World} (h : w.Within I J) {action : Action}
    (hr : ∀ r ∈ action.requests, J (.ofRequest r)) : (w.act σ action).Within I J := by
  cases action with
  | arrive request =>
    refine ⟨h.service, fun x hx => ?_⟩
    rcases List.mem_append.mp hx with hx | hx
    · exact h.writers x hx
    · rw [List.mem_singleton.mp hx]
      exact hr request (List.mem_singleton_self request)
  | disturb locks feed => exact ⟨hI.surround _ _ _ h.service, h.writers⟩
  | advance i now cancelled =>
    cases hi : w.writers[i]? with
    | none =>
      rw [World.act_advance_of_none hi]
      exact h
    | some x =>
      rw [World.act_advance_of_some hi]
      obtain ⟨hs, hc⟩ := hI.step w.service x.call now cancelled h.service
        (h.writers x (List.mem_of_getElem? hi))
      refine ⟨hs, fun y hy => ?_⟩
      rcases List.mem_or_eq_of_mem_set hy with hy | rfl
      · exact h.writers y hy
      · exact hc

theorem world {w : World} (h : w.Within I J) {actions : List Action}
    (hr : ∀ r ∈ actions.flatMap Action.requests, J (.ofRequest r)) :
    (w.run σ actions).Within I J := by
  induction actions generalizing w with
  | nil => exact h
  | cons action actions ih =>
    rw [List.flatMap_cons] at hr
    exact ih (hI.act h fun r hr' => hr r (List.mem_append_left _ hr'))
      fun r hr' => hr r (List.mem_append_right _ hr')

/-! ## Deployments -/

theorem operate {d : Deployment} (h : I d.service) {op : Operation}
    (hr : ∀ r ∈ op.requests, J (.ofRequest r)) : I (d.operate σ op).service := by
  cases op with
  | write cancellation request =>
    exact hI.turn.write h (hr request (List.mem_singleton_self request)) cancellation
  | batch cancellation requests => exact hI.turn.batch h hr cancellation
  | bunch actions =>
    simp only [Deployment.operate]
    split_ifs
    · exact (hI.world ⟨h, fun _ hx => by cases hx⟩ hr).service
    · exact h
  | surround locks feed now roster sweeper => exact hI.surround _ _ _ h

/-- **An invariant holds behind every run** of requests that are within it. -/
theorem run {d : Deployment} (h : I d.service) {ops : List Operation}
    (hr : ∀ op ∈ ops, ∀ r ∈ op.requests, J (.ofRequest r)) : I (d.run σ ops).service := by
  induction ops generalizing d with
  | nil => exact h
  | cons op ops ih =>
    exact ih (hI.operate h (hr op List.mem_cons_self))
      fun op' hop => hr op' (List.mem_cons_of_mem op hop)

end Service.Invariant

end CatalogChain
