import CatalogChain.Proofs.Service.Crews
import CatalogChain.Proofs.Service.Moves
import Mathlib.Algebra.BigOperators.Group.List.Basic
import Mathlib.Data.List.TakeWhile
import Mathlib.Tactic.Ring

/-!
# Crews come to an end

A crew has only so much to do.  Each of its jobs goes on a bounded number of times, once for each
attempt to get its lock (`Call.turns`), and time passes only up to an instant at which a job wakes
or the work is cancelled.  So every step lessens what is left (`Crew.effort`), and
`Crew.longestWork` steps are enough: after them the crew has nothing left to do
(`Crew.nil_of_longestWork`).
-/

namespace CatalogChain

/-! ## Calls that go on -/

namespace Call

variable {σ : Supply} {now : Nat} {cancelled : Bool} {s : Service} {c : Call}

theorem settings_settle (n : Nat) :
    (c.settle σ now cancelled n s).1.settings = s.settings :=
  settle_induction (Q := fun s' _ => s'.settings = s.settings)
    (fun s' c' _ h => (step_moves σ now cancelled s' c').settings_eq.trans h) rfl n

theorem rank_settle_le (n : Nat) :
    rank s.settings (c.settle σ now cancelled n s).2.stage ≤ rank s.settings c.stage := by
  -- the rank depends on the settings, so that these stay is part of the induction
  have hboth : (c.settle σ now cancelled n s).1.settings = s.settings ∧
      rank s.settings (c.settle σ now cancelled n s).2.stage ≤ rank s.settings c.stage := by
    refine settle_induction (Q := fun s' c' => s'.settings = s.settings ∧
      rank s.settings c'.stage ≤ rank s.settings c.stage) (fun s' c' hsus h => ?_)
      ⟨rfl, Nat.le_refl _⟩ n
    have hmoves := step_moves σ now cancelled s' c'
    have hlt := hmoves.rank_lt hsus
    rw [h.1] at hlt
    exact ⟨hmoves.settings_eq.trans h.1, by omega⟩
  exact hboth.2

/-- A call that is resumed and was not suspended has come nearer to its end. -/
theorem rank_resume_lt (h : c.isSuspended now cancelled = false) :
    rank s.settings (c.resume σ now cancelled s).2.stage < rank s.settings c.stage := by
  have hmoves := step_moves σ now cancelled s c
  have hlt := hmoves.rank_lt h
  have hresume : c.resume σ now cancelled s =
      (c.step σ now cancelled s).2.settle σ now cancelled (2 * attemptLimit s.settings + 5)
        (c.step σ now cancelled s).1 :=
    if_neg (by rw [h]; exact Bool.false_ne_true)
  have hle : rank (c.step σ now cancelled s).1.settings (c.resume σ now cancelled s).2.stage ≤
      rank (c.step σ now cancelled s).1.settings (c.step σ now cancelled s).2.stage := by
    rw [hresume]
    exact rank_settle_le _
  rw [hmoves.settings_eq] at hle
  exact Nat.lt_of_le_of_lt hle hlt

/-- A call that is suspended has ended, or it sleeps. -/
theorem isOver_or_asleep (h : c.isSuspended now cancelled = true) :
    c.isOver = true ∨ ∃ n wakeAt, c.stage = .asleep n wakeAt := by
  unfold isSuspended at h
  unfold isOver
  split at h
  · next hs => exact .inl (by rw [hs])
  · next hs => exact .inl (by rw [hs])
  · next n wakeAt hs => exact .inr ⟨n, wakeAt, hs⟩
  · cases h

end Call

/-! ## What is left -/

/-- **A stage at which a call waits for its turn.** -/
def Stage.Waiting (stage : Stage) : Prop :=
  stage = .arrived ∨ ∃ n wakeAt, stage = .asleep n wakeAt

/-- **How often a waiting call still goes on** at most. -/
def Call.turns (settings : WriteSettings) (c : Call) : Nat := (rank settings c.stage - 5) / 2

theorem Call.turns_pos {settings : WriteSettings} {c : Call} (h : c.stage.Waiting) :
    1 ≤ c.turns settings := by
  have hpos := attemptLimit_pos settings
  unfold turns
  rcases h with hs | ⟨n, wakeAt, hs⟩
  · rw [hs]
    simp only [rank]
    omega
  · rw [hs]
    simp only [rank]
    omega

/-- Going on takes a turn. -/
theorem Call.turns_lt {settings : WriteSettings} {c c' : Call} (h : c.stage.Waiting)
    (h' : c'.stage.Waiting) (hlt : rank settings c'.stage < rank settings c.stage) :
    c'.turns settings < c.turns settings := by
  have hpos := attemptLimit_pos settings
  unfold turns
  -- at all of these stages the rank is odd
  rcases h with hs | ⟨n, wakeAt, hs⟩ <;> rcases h' with hs' | ⟨m, wakeAt', hs'⟩ <;>
    rw [hs, hs'] at hlt ⊢ <;> simp only [rank] at hlt ⊢ <;> omega

namespace Crew

/-- The turns that some jobs still take. -/
def turns (settings : WriteSettings) (js : List Job) : Nat :=
  (js.map fun j => j.call.turns settings).sum

/-- Whether a cancellation is to come, and whether it is due. -/
def pending (c : Crew) : Nat :=
  match c.cancelAt with
  | none => 0
  | some t => if t ≤ c.deployment.now then 1 else 2

/-- **What a crew still has to do** at most: two steps for every turn of a job, one more for every
job that sleeps, and the steps up to the cancellation. -/
def effort (c : Crew) : Nat :=
  let settings := c.deployment.service.settings
  2 * turns settings c.queue + 2 * turns settings c.ready + 2 * turns settings c.sleeping +
    c.sleeping.length + c.pending

/-- **A crew at work**: the jobs of its queue have not begun, those that can go on are not
suspended, those that sleep do so; and nobody waits for a place while all places are free. -/
structure Lively (c : Crew) : Prop where
  queue : ∀ j ∈ c.queue, j.call.stage = .arrived
  ready : ∀ j ∈ c.ready, j.call.stage.Waiting ∧
    j.call.isSuspended c.deployment.now c.cancelled = false
  sleeping : ∀ j ∈ c.sleeping, ∃ n wakeAt, j.call.stage = .asleep n wakeAt
  manned : c.queue ≠ [] → c.ready ≠ [] ∨ c.sleeping ≠ []

theorem turns_append (settings : WriteSettings) (js ks : List Job) :
    turns settings (js ++ ks) = turns settings js + turns settings ks := by
  rw [turns, List.map_append, List.sum_append, turns, turns]

theorem turns_cons (settings : WriteSettings) (j : Job) (js : List Job) :
    turns settings (j :: js) = j.call.turns settings + turns settings js := by
  rw [turns, List.map_cons, List.sum_cons, turns]

theorem turns_take_drop (settings : WriteSettings) (js : List Job) (n : Nat) :
    turns settings (js.take n) + turns settings (js.drop n) = turns settings js := by
  rw [← turns_append, List.take_append_drop]

theorem insertSleeper_ne_nil (job : Job) (js : List Job) : insertSleeper job js ≠ [] := by
  intro h
  have hlen := (perm_insertSleeper job js).length_eq
  rw [h] at hlen
  cases hlen

theorem turns_insertSleeper (settings : WriteSettings) (job : Job) (js : List Job) :
    turns settings (insertSleeper job js) = job.call.turns settings + turns settings js := by
  rw [← turns_cons]
  exact ((perm_insertSleeper job js).map _).sum_eq

variable {σ : Supply} {c c' : Crew}

/-! ### A job goes on -/

theorem isSuspended_of_arrived {call : Call} (h : call.stage = .arrived) (now : Nat)
    (cancelled : Bool) : call.isSuspended now cancelled = false := by
  rw [Call.isSuspended, h]

theorem isSuspended_of_asleep {call : Call} {n wakeAt now : Nat} {cancelled : Bool}
    (h : call.stage = .asleep n wakeAt) (hw : cancelled = true ∨ wakeAt ≤ now) :
    call.isSuspended now cancelled = false := by
  rw [Call.isSuspended, h]
  rcases hw with rfl | hw
  · rfl
  · simp only [Bool.and_eq_false_iff, decide_eq_false_iff_not, Nat.not_lt]
    exact .inr hw

/-- What becomes of the service and of the call of a job that goes on. -/
def resumed (σ : Supply) (c : Crew) (job : Job) : Service × Call :=
  job.call.resume σ c.deployment.now c.cancelled c.deployment.service

theorem work_of_isOver {job : Job} (ready : List Job)
    (h : (resumed σ c job).2.isOver = true) : c.work σ job ready =
      { c with
        deployment := { c.deployment with service := (resumed σ c job).1 }
        ready := ready ++ c.queue.take 1
        queue := c.queue.drop 1
        ended := (job.index, (resumed σ c job).2.outcome?) :: c.ended } := by
  unfold Crew.work
  exact if_pos h

theorem work_of_not_isOver {job : Job} (ready : List Job)
    (h : ¬ (resumed σ c job).2.isOver = true) : c.work σ job ready =
      { c with
        deployment := { c.deployment with service := (resumed σ c job).1 }
        ready
        sleeping := insertSleeper ⟨job.index, (resumed σ c job).2⟩ c.sleeping } := by
  unfold Crew.work
  exact if_neg h

theorem resumed_isOver_or_asleep (σ : Supply) (c : Crew) (job : Job) :
    (resumed σ c job).2.isOver = true ∨
      ∃ n wakeAt, (resumed σ c job).2.stage = .asleep n wakeAt :=
  Call.isOver_or_asleep Call.isSuspended_resume

section Work
variable {job : Job} {ready : List Job} (h : c.Lively) (hready : c.ready = job :: ready)
include h hready

theorem Lively.waiting : job.call.stage.Waiting ∧
    job.call.isSuspended c.deployment.now c.cancelled = false :=
  h.ready job (by rw [hready]; exact List.mem_cons_self ..)

theorem Lively.work : (c.work σ job ready).Lively := by
  have hrest : ∀ j ∈ ready, j.call.stage.Waiting ∧
      j.call.isSuspended c.deployment.now c.cancelled = false := fun j hj =>
    h.ready j (by rw [hready]; exact List.mem_cons_of_mem job hj)
  by_cases hover : (resumed σ c job).2.isOver = true
  · rw [work_of_isOver ready hover]
    refine ⟨fun j hj => h.queue j (List.mem_of_mem_drop hj), fun j hj => ?_, h.sleeping, ?_⟩
    · rcases List.mem_append.mp hj with hj | hj
      · exact hrest j hj
      · have harrived := h.queue j (List.mem_of_mem_take hj)
        exact ⟨.inl harrived, isSuspended_of_arrived harrived ..⟩
    · -- the next of the queue takes the place
      intro hq
      left
      cases hqueue : c.queue with
      | nil =>
        simp only [hqueue] at hq
        exact absurd rfl hq
      | cons j js => simp
  · rw [work_of_not_isOver ready hover]
    refine ⟨h.queue, hrest, fun j hj => ?_, fun _ => .inr ?_⟩
    · rcases List.mem_cons.mp ((perm_insertSleeper ..).subset hj) with rfl | hj
      · exact (resumed_isOver_or_asleep σ c job).resolve_left hover
      · exact h.sleeping j hj
    · exact insertSleeper_ne_nil _ _

/-- **A job that goes on takes one of its turns.** -/
theorem Lively.effort_work : (c.work σ job ready).effort < c.effort := by
  obtain ⟨hwaiting, hsus⟩ := h.waiting hready
  have hsettings : (resumed σ c job).1.settings = c.deployment.service.settings :=
    Call.settings_settle _
  have hpos : 1 ≤ job.call.turns c.deployment.service.settings := Call.turns_pos hwaiting
  by_cases hover : (resumed σ c job).2.isOver = true
  · have hqueue := turns_take_drop c.deployment.service.settings c.queue 1
    rw [work_of_isOver ready hover]
    simp only [effort, pending, hsettings, hready, turns_append, turns_cons]
    omega
  · have hasleep := (resumed_isOver_or_asleep σ c job).resolve_left hover
    have hturns := Call.turns_lt hwaiting (.inr hasleep)
      (Call.rank_resume_lt (σ := σ) (s := c.deployment.service) hsus)
    have hlen := (perm_insertSleeper ⟨job.index, (resumed σ c job).2⟩ c.sleeping).length_eq
    have hlt : (resumed σ c job).2.turns c.deployment.service.settings <
        job.call.turns c.deployment.service.settings := hturns
    rw [List.length_cons] at hlen
    rw [work_of_not_isOver ready hover]
    simp only [effort, pending, hsettings, hready, turns_cons, turns_insertSleeper, hlen]
    omega

end Work

/-! ### Cancelling and waking -/

theorem Lively.cancel (h : c.Lively) : c.cancel.Lively where
  queue := h.queue
  ready j hj := by
    rcases List.mem_append.mp hj with hj | hj
    · have hwaiting := (h.ready j hj).1
      refine ⟨hwaiting, ?_⟩
      rcases hwaiting with hs | ⟨n, wakeAt, hs⟩
      · exact isSuspended_of_arrived hs ..
      · exact isSuspended_of_asleep hs (.inl rfl)
    · obtain ⟨n, wakeAt, hs⟩ := h.sleeping j hj
      exact ⟨.inr ⟨n, wakeAt, hs⟩, isSuspended_of_asleep hs (.inl rfl)⟩
  sleeping _ hj := by cases hj
  manned hq := by
    left
    show c.ready ++ c.sleeping ≠ []
    rcases h.manned hq with hne | hne <;> simp [hne]

theorem isDue_iff : c.isDue = true ↔ ∃ t, c.cancelAt = some t ∧ t ≤ c.deployment.now := by
  unfold isDue
  cases c.cancelAt <;> simp

theorem effort_cancel (hdue : c.isDue = true) : c.cancel.effort < c.effort := by
  obtain ⟨t, hat, ht⟩ := isDue_iff.mp hdue
  have hnil : turns c.deployment.service.settings [] = 0 := rfl
  simp only [effort, pending, cancel, turns_append, hat, if_pos ht, hnil, List.length_nil]
  omega

theorem le_nextInstant (c : Crew) (first : Job) : c.deployment.now ≤ c.nextInstant first := by
  unfold nextInstant
  cases c.cancelAt <;> simp only <;> omega

/-- Time does not pass beyond the instant of the cancellation. -/
theorem nextInstant_of_sleeping {first : Job} (h : c.nextInstant first < first.wakeAt) :
    ∃ t, c.cancelAt = some t ∧ t ≤ c.nextInstant first := by
  unfold nextInstant at h ⊢
  cases hat : c.cancelAt with
  | none =>
    simp only [hat] at h
    omega
  | some t =>
    simp only [hat] at h ⊢
    exact ⟨t, rfl, by omega⟩

theorem pending_le (c : Crew) : c.pending ≤ 2 := by
  unfold pending
  cases c.cancelAt with
  | none => exact Nat.zero_le 2
  | some t =>
    simp only
    split_ifs <;> omega

theorem pending_wake_le (c : Crew) (first : Job) : (c.wake first).pending ≤ c.pending := by
  have hle := c.le_nextInstant first
  have hnow : (c.wake first).deployment.now = c.nextInstant first := rfl
  have hat : (c.wake first).cancelAt = c.cancelAt := rfl
  unfold pending
  rw [hnow, hat]
  cases c.cancelAt with
  | none => exact Nat.le_refl _
  | some t =>
    simp only
    split_ifs <;> omega

section Wake
variable {first : Job} {rest : List Job} (hsleeping : c.sleeping = first :: rest)
include hsleeping

theorem Lively.wake (h : c.Lively) : (c.wake first).Lively where
  queue := h.queue
  ready j hj := by
    have hmem : j ∈ c.sleeping := (List.takeWhile_prefix _).subset hj
    have hawake := List.mem_takeWhile_imp hj
    obtain ⟨n, wakeAt, hs⟩ := h.sleeping j hmem
    have hle : wakeAt ≤ c.nextInstant first := by
      simpa [Job.wakeAt, Call.wakeAt?, hs] using hawake
    exact ⟨.inr ⟨n, wakeAt, hs⟩, isSuspended_of_asleep hs (.inr hle)⟩
  sleeping j hj := h.sleeping j ((List.dropWhile_suffix _).subset hj)
  manned _ := by
    have hall : (c.wake first).ready ++ (c.wake first).sleeping = c.sleeping :=
      List.takeWhile_append_dropWhile
    by_contra hnone
    obtain ⟨hr, hs⟩ := not_or.mp hnone
    rw [not_not.mp hr, not_not.mp hs, hsleeping] at hall
    cases hall

theorem length_ready_wake_pos (hwakes : first.wakeAt ≤ c.nextInstant first) :
    1 ≤ (c.wake first).ready.length := by
  have hready : (c.wake first).ready =
      c.sleeping.takeWhile fun j => (j.wakeAt ≤ c.nextInstant first : Bool) := rfl
  rw [hready, hsleeping, List.takeWhile_cons, if_pos (decide_eq_true hwakes), List.length_cons]
  omega

/-- **Time passes up to an instant at which a job wakes or the work is cancelled.** -/
theorem effort_wake (hdue : c.isDue = false) : (c.wake first).effort < c.effort := by
  have hall : (c.wake first).ready ++ (c.wake first).sleeping = c.sleeping :=
    List.takeWhile_append_dropWhile
  have hturns := congrArg (turns c.deployment.service.settings) hall
  have hlen := congrArg List.length hall
  rw [turns_append] at hturns
  rw [List.length_append] at hlen
  have hpending := c.pending_wake_le first
  have hafter : (c.wake first).effort = 2 * turns c.deployment.service.settings c.queue +
      2 * turns c.deployment.service.settings (c.wake first).ready +
      2 * turns c.deployment.service.settings (c.wake first).sleeping +
      (c.wake first).sleeping.length + (c.wake first).pending := rfl
  have hbefore : c.effort = 2 * turns c.deployment.service.settings c.queue +
      2 * turns c.deployment.service.settings c.ready +
      2 * turns c.deployment.service.settings c.sleeping + c.sleeping.length + c.pending := rfl
  rcases Nat.lt_or_ge (c.nextInstant first) first.wakeAt with hlt | hge
  · -- the work is cancelled before the first job wakes
    obtain ⟨t, hat, ht⟩ := nextInstant_of_sleeping hlt
    have hfuture : ¬ t ≤ c.deployment.now := fun hpast =>
      Bool.eq_false_iff.mp hdue (isDue_iff.mpr ⟨t, hat, hpast⟩)
    have htwo : c.pending = 2 := by
      simp only [pending, hat, if_neg hfuture]
    have hone : (c.wake first).pending = 1 := by
      show (match c.cancelAt with | none => 0 | some t => _) = 1
      rw [hat]
      exact if_pos ht
    omega
  · have hpos := length_ready_wake_pos hsleeping hge
    omega

end Wake

/-! ## The end -/

variable {n : Nat}

theorem Lively.step (h : c.Lively) (hs : c.step σ = some c') :
    c'.Lively ∧ c'.effort < c.effort := by
  rcases step_cases hs with ⟨job, ready, hready, rfl⟩ | ⟨hdue, rfl⟩ |
    ⟨first, rest, -, hsleeping, hdue, rfl⟩
  · exact ⟨h.work hready, h.effort_work hready⟩
  · exact ⟨h.cancel, effort_cancel hdue⟩
  · exact ⟨Lively.wake hsleeping h, effort_wake hsleeping hdue⟩

theorem Lively.run (h : c.Lively) (n : Nat) : (c.run σ n).Lively :=
  run_induction (fun _ _ hc hs => (hc.step hs).1) h n

/-- **Enough steps take a crew to its end.** -/
theorem Lively.step_run_eq_none (h : c.Lively) (hn : c.effort ≤ n) :
    (c.run σ n).step σ = none := by
  -- the effort that is left is never more than the steps that are left
  induction n generalizing c with
  | zero =>
    show c.step σ = none
    cases hs : c.step σ with
    | none => rfl
    | some c' =>
      have hlt := (h.step hs).2
      omega
  | succ n ih =>
    unfold Crew.run
    cases hs : c.step σ with
    | none => exact hs
    | some c' =>
      obtain ⟨hlively, hlt⟩ := h.step hs
      exact ih hlively (by omega)

/-- A crew that is at its end has no jobs left. -/
theorem Lively.nil_of_step (h : c.Lively) (hs : c.step σ = none) :
    c.queue = [] ∧ c.ready = [] ∧ c.sleeping = [] := by
  have hidle : c.ready = [] ∧ c.sleeping = [] := by
    unfold Crew.step at hs
    split at hs
    · cases hs
    · cases hs
    · next hready hsleeping => exact ⟨hready, hsleeping⟩
  refine ⟨?_, hidle⟩
  by_contra hq
  rcases h.manned hq with hne | hne
  · exact hne hidle.1
  · exact hne hidle.2

section OfRequests
variable (d : Deployment) (cancellation : Cancellation) (prompt : Bool) {places : Nat}
  (requests : List Request)

omit d cancellation prompt in
theorem arrived_of_mem : ∀ j ∈ requests.mapIdx fun index request =>
    Job.mk index (.ofRequest request), j.call.stage = .arrived := by
  intro j hj
  obtain ⟨i, hi, rfl⟩ := List.mem_mapIdx.mp hj
  rfl

theorem lively_ofRequests (hplaces : 1 ≤ places) :
    (ofRequests d cancellation prompt places requests).Lively := by
  have hjobs := arrived_of_mem requests
  refine ⟨fun j hj => hjobs j (List.mem_of_mem_drop hj), fun j hj => ?_, fun j hj => ?_,
    fun hq => .inl fun hready => ?_⟩
  · have harrived := hjobs j (List.mem_of_mem_take hj)
    exact ⟨.inl harrived, isSuspended_of_arrived harrived ..⟩
  · cases hj
  · -- who waits for a place waits behind one who has it
    rcases List.take_eq_nil_iff.mp hready with h0 | hnil
    · omega
    · exact hq (by show List.drop _ _ = []; rw [hnil, List.drop_nil])

theorem turns_of_arrived (settings : WriteSettings) {js : List Job}
    (h : ∀ j ∈ js, j.call.stage = .arrived) :
    turns settings js = js.length * Call.attemptLimit settings := by
  have hall : ∀ j ∈ js, j.call.turns settings = Call.attemptLimit settings := by
    intro j hj
    rw [Call.turns, h j hj]
    simp only [Call.rank]
    omega
  rw [turns, List.map_congr_left hall, List.map_const', List.sum_replicate_nat]

theorem effort_ofRequests_le (places : Nat) :
    (ofRequests d cancellation prompt places requests).effort ≤
      longestWork d.service.settings requests.length := by
  have hjobs := turns_of_arrived d.service.settings (arrived_of_mem requests)
  rw [List.length_mapIdx, ← turns_take_drop d.service.settings _ places] at hjobs
  have hpending := (ofRequests d cancellation prompt places requests).pending_le
  have heffort : (ofRequests d cancellation prompt places requests).effort =
      2 * turns d.service.settings (ofRequests d cancellation prompt places requests).queue +
      2 * turns d.service.settings (ofRequests d cancellation prompt places requests).ready +
      2 * 0 + 0 + (ofRequests d cancellation prompt places requests).pending := rfl
  have hwork : longestWork d.service.settings requests.length =
      2 * (requests.length * Call.attemptLimit d.service.settings) + 2 * requests.length + 2 := by
    unfold longestWork
    ring
  have hqueue : turns d.service.settings
      (ofRequests d cancellation prompt places requests).ready +
      turns d.service.settings (ofRequests d cancellation prompt places requests).queue =
      requests.length * Call.attemptLimit d.service.settings := hjobs
  omega

/-- **A crew comes to the end of its work**, and has no jobs left then. -/
theorem nil_of_longestWork (hplaces : 1 ≤ places) :
    let c := (ofRequests d cancellation prompt places requests).run σ
      (longestWork d.service.settings requests.length)
    c.queue = [] ∧ c.ready = [] ∧ c.sleeping = [] := by
  have h := lively_ofRequests d cancellation prompt requests hplaces
  exact (h.run _).nil_of_step
    (h.step_run_eq_none (σ := σ) (effort_ofRequests_le d cancellation prompt requests places))

end OfRequests

end Crew

end CatalogChain
