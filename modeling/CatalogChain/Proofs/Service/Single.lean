import CatalogChain.Proofs.Service.Completion

/-!
# Single writes

A single write is the work of a crew of one.  Nobody else makes a step meanwhile; time passes while
the write waits for its lock.  So what the steps of a call and the passing of time keep
(`Deployment.Keeps`) holds when the write is over (`Deployment.perform?_of_keeps`), and a write is
always over in the end.
-/

namespace CatalogChain

/-- **What a single write keeps**: a property of a deployment and of the call that works on it. -/
structure Deployment.Keeps (σ : Supply) (P : Deployment → Call → Prop) : Prop where
  step : ∀ (d : Deployment) (c : Call) (cancelled : Bool), P d c →
    P { d with service := (c.step σ d.now cancelled d.service).1 }
      (c.step σ d.now cancelled d.service).2
  pass : ∀ (d : Deployment) (c : Call) (now : Nat), d.now ≤ now → P d c → P (d.passTo now) c

/-- **A crew of one**, whose only job is at work or has ended. -/
structure Crew.Alone (P : Deployment → Call → Prop) (c : Crew) : Prop where
  queue : c.queue = []
  job : (∃ call, c.ready ++ c.sleeping = [⟨0, call⟩] ∧ c.ended = [] ∧ P c.deployment call) ∨
    ∃ call, c.ready ++ c.sleeping = [] ∧ c.ended = [(0, call.outcome?)] ∧
      call.isOver = true ∧ P c.deployment call

namespace Crew

variable {σ : Supply} {P : Deployment → Call → Prop} {c c' : Crew}

theorem keeps_settle (hP : Deployment.Keeps σ P) {d : Deployment} {call : Call}
    (cancelled : Bool) (h : P d call) (n : Nat) :
    P { d with service := (call.settle σ d.now cancelled n d.service).1 }
      (call.settle σ d.now cancelled n d.service).2 :=
  Call.settle_induction (Q := fun s c => P { d with service := s } c)
    (fun s c _ hc => hP.step { d with service := s } c cancelled hc) h n

section Work
variable {job : Job} {ready : List Job} (hP : Deployment.Keeps σ P) (h : c.Alone P)
  (hready : c.ready = job :: ready)
include hP h hready

theorem Alone.work : (c.work σ job ready).Alone P := by
  rcases h.job with ⟨call, hjob, hended, hcall⟩ | ⟨call, hjob, -⟩
  · -- the job that is ready is the only one
    rw [hready, List.cons_append] at hjob
    obtain ⟨rfl, hrest⟩ := List.cons_eq_cons.mp hjob
    obtain ⟨rfl, hsleeping⟩ := List.append_eq_nil_iff.mp hrest
    have hnext := keeps_settle hP c.cancelled hcall (Call.longestRun c.deployment.service.settings)
    by_cases hover : (resumed σ c ⟨0, call⟩).2.isOver = true
    · rw [work_of_isOver _ hover]
      refine ⟨?_, .inr ⟨(resumed σ c ⟨0, call⟩).2, ?_, ?_, hover, hnext⟩⟩
      · simp only [h.queue, List.drop_nil]
      · simp only [h.queue, hsleeping, List.take_nil, List.append_nil]
      · simp only [hended]
    · rw [work_of_not_isOver _ hover]
      refine ⟨h.queue, .inl ⟨(resumed σ c ⟨0, call⟩).2, ?_, hended, hnext⟩⟩
      simp only [hsleeping, insertSleeper, List.nil_append]
  · rw [hready] at hjob
    cases hjob

end Work

theorem Alone.cancel (h : c.Alone P) : c.cancel.Alone P where
  queue := h.queue
  job := by
    have hall : c.cancel.ready ++ c.cancel.sleeping = c.ready ++ c.sleeping := List.append_nil _
    rw [hall]
    exact h.job

theorem Alone.wake (hP : Deployment.Keeps σ P) (h : c.Alone P) (hready : c.ready = [])
    (first : Job) : (c.wake first).Alone P where
  queue := h.queue
  job := by
    have hall : (c.wake first).ready ++ (c.wake first).sleeping = c.ready ++ c.sleeping := by
      rw [hready]
      exact List.takeWhile_append_dropWhile
    have hpass := fun call => hP.pass c.deployment call _ (c.le_nextInstant first)
    rw [hall]
    rcases h.job with ⟨call, hjob, hended, hcall⟩ | ⟨call, hjob, hended, hover, hcall⟩
    · exact .inl ⟨call, hjob, hended, hpass call hcall⟩
    · exact .inr ⟨call, hjob, hended, hover, hpass call hcall⟩

theorem Alone.step (hP : Deployment.Keeps σ P) (h : c.Alone P) (hs : c.step σ = some c') :
    c'.Alone P := by
  rcases step_cases hs with ⟨job, ready, hready, rfl⟩ | ⟨-, rfl⟩ | ⟨first, -, hready, -, -, rfl⟩
  · exact h.work hP hready
  · exact h.cancel
  · exact h.wake hP hready first

theorem Alone.run (hP : Deployment.Keeps σ P) (h : c.Alone P) (n : Nat) : (c.run σ n).Alone P :=
  run_induction (fun _ _ hc hs => hc.step hP hs) h n

theorem outcome?_of_ended {outcome : Option Outcome} (h : c.ended = [(0, outcome)]) :
    c.outcome? 0 = outcome := by
  rw [outcome?, h]
  rfl

end Crew

/-- **A single write is over in the end**, and what it keeps holds then. -/
theorem Deployment.perform?_of_keeps {σ : Supply} {P : Deployment → Call → Prop}
    (hP : Deployment.Keeps σ P) {d : Deployment} {request : Request}
    (h : P d (.ofRequest request)) (cancellation : Cancellation) :
    ∃ d' call, P d' call ∧ call.isOver = true ∧
      d.perform? σ cancellation request = call.outcome?.map (·, d') := by
  have hbegin : (Crew.ofRequests d cancellation false 1 [request]).Alone P :=
    ⟨rfl, .inl ⟨.ofRequest request, rfl, rfl, h⟩⟩
  obtain ⟨-, hready, hsleeping⟩ :=
    Crew.nil_of_longestWork (σ := σ) d cancellation false [request] (Nat.le_refl 1)
  rcases (hbegin.run hP (Crew.longestWork d.service.settings [request].length)).job with
    ⟨call, hjob, -⟩ | ⟨call, -, hended, hover, hcall⟩
  · rw [hready, hsleeping] at hjob
    cases hjob
  · refine ⟨_, call, hcall, hover, ?_⟩
    exact congrArg (Option.map _) (Crew.outcome?_of_ended hended)

end CatalogChain
