import CatalogChain.Proofs.Service.Completion
import CatalogChain.Proofs.Service.Runs

/-!
# Outcomes and announcements

A crew loses none of its jobs and does none twice: at any time each of them has ended or is still
to go on (`Crew.Numbered`).  So at the end of its work the outcomes, read off in the order of the
list, are those in the order in which the writes have ended (`Crew.outcomes_perm`).  Hence a list of
writes announces the events of those that have succeeded, each once, and nothing else
(`Agrees.performAll`).
-/

namespace CatalogChain

namespace Crew

/-- The jobs that are still to go on. -/
def jobs (c : Crew) : List Job := c.ready ++ c.sleeping ++ c.queue

/-- **Every job of a list of `n`** has ended or is still to go on. -/
def Numbered (n : Nat) (c : Crew) : Prop :=
  (c.ended.map Prod.fst ++ c.jobs.map Job.index).Perm (List.range n)

variable {σ : Supply} {n : Nat} {c c' : Crew}

section Work
variable {job : Job} {ready : List Job}

theorem jobs_of_ready (hready : c.ready = job :: ready) :
    c.jobs = job :: (ready ++ c.sleeping ++ c.queue) := by
  rw [jobs, hready]
  rfl

/-- A job that has ended leaves the others. -/
theorem jobs_work_of_isOver (hover : (resumed σ c job).2.isOver = true) :
    (c.work σ job ready).jobs.Perm (ready ++ c.sleeping ++ c.queue) := by
  rw [work_of_isOver ready hover]
  show (ready ++ c.queue.take 1 ++ c.sleeping ++ c.queue.drop 1).Perm _
  rw [List.append_assoc ready, List.append_assoc ready, List.append_assoc ready]
  refine List.Perm.append_left ready ?_
  calc (c.queue.take 1 ++ c.sleeping ++ c.queue.drop 1).Perm
        (c.sleeping ++ c.queue.take 1 ++ c.queue.drop 1) :=
      List.perm_append_comm.append_right _
    _ = c.sleeping ++ c.queue := by rw [List.append_assoc, List.take_append_drop]

/-- A job that sleeps on is still there. -/
theorem jobs_work_of_not_isOver (hover : ¬ (resumed σ c job).2.isOver = true) :
    (c.work σ job ready).jobs.Perm
      (⟨job.index, (resumed σ c job).2⟩ :: (ready ++ c.sleeping ++ c.queue)) := by
  rw [work_of_not_isOver ready hover]
  have hsleeping := perm_insertSleeper ⟨job.index, (resumed σ c job).2⟩ c.sleeping
  refine ((hsleeping.append_left ready).append_right c.queue).trans ?_
  rw [List.append_assoc, List.append_assoc, List.cons_append]
  exact List.perm_middle

theorem jobs_cancel (c : Crew) : c.cancel.jobs = c.jobs :=
  congrArg (· ++ c.queue) (List.append_nil _)

theorem jobs_wake (hready : c.ready = []) (first : Job) : (c.wake first).jobs = c.jobs := by
  rw [jobs, jobs, hready]
  exact congrArg (· ++ c.queue) List.takeWhile_append_dropWhile

theorem Numbered.work (h : c.Numbered n) (hready : c.ready = job :: ready) :
    (c.work σ job ready).Numbered n := by
  unfold Numbered at h
  rw [jobs_of_ready hready, List.map_cons] at h
  by_cases hover : (resumed σ c job).2.isOver = true
  · have hended : (c.work σ job ready).ended.map Prod.fst = job.index :: c.ended.map Prod.fst := by
      rw [work_of_isOver ready hover]
      rfl
    rw [Numbered, hended]
    refine (List.Perm.append_left _ ((jobs_work_of_isOver hover).map _)).trans ?_
    exact List.perm_middle.symm.trans h
  · have hended : (c.work σ job ready).ended = c.ended := by
      rw [work_of_not_isOver ready hover]
    rw [Numbered, hended]
    exact (List.Perm.append_left _ ((jobs_work_of_not_isOver hover).map _)).trans h

end Work

theorem Numbered.step (h : c.Numbered n) (hs : c.step σ = some c') : c'.Numbered n := by
  rcases step_cases hs with ⟨job, ready, hready, rfl⟩ | ⟨-, rfl⟩ | ⟨first, -, hready, -, -, rfl⟩
  · exact h.work hready
  · unfold Numbered
    rw [jobs_cancel]
    exact h
  · unfold Numbered
    rw [jobs_wake hready]
    exact h

theorem Numbered.run (h : c.Numbered n) (k : Nat) : (c.run σ k).Numbered n :=
  run_induction (fun _ _ hc hs => hc.step hs) h k

theorem jobs_ofRequests (d : Deployment) (cancellation : Cancellation) (prompt : Bool)
    (places : Nat) (requests : List Request) :
    (ofRequests d cancellation prompt places requests).jobs =
      requests.mapIdx fun index request => ⟨index, .ofRequest request⟩ := by
  show List.take places _ ++ [] ++ List.drop places _ = _
  rw [List.append_nil, List.take_append_drop]

theorem numbered_ofRequests (d : Deployment) (cancellation : Cancellation) (prompt : Bool)
    (places : Nat) (requests : List Request) :
    (ofRequests d cancellation prompt places requests).Numbered requests.length := by
  have hindex : (requests.mapIdx fun index request => Job.mk index (.ofRequest request)).map
      Job.index = List.range requests.length := by
    refine List.ext_getElem (by simp) fun i hi hi' => ?_
    simp
  unfold Numbered
  rw [jobs_ofRequests, hindex]
  exact .refl _

/-- **At the end of its work a crew has no jobs left**, and each of them has ended once. -/
theorem jobs_of_longestWork (d : Deployment) (cancellation : Cancellation) (prompt : Bool)
    {places : Nat} (hplaces : 1 ≤ places) (requests : List Request) :
    ((ofRequests d cancellation prompt places requests).run σ
      (longestWork d.service.settings requests.length)).jobs = [] := by
  obtain ⟨hqueue, hready, hsleeping⟩ :=
    nil_of_longestWork (σ := σ) d cancellation prompt requests hplaces
  rw [jobs, hready, hsleeping, hqueue]
  rfl

theorem ended_of_longestWork (d : Deployment) (cancellation : Cancellation) (prompt : Bool)
    {places : Nat} (hplaces : 1 ≤ places) (requests : List Request) :
    (((ofRequests d cancellation prompt places requests).run σ
      (longestWork d.service.settings requests.length)).ended.map Prod.fst).Perm
        (List.range requests.length) := by
  have hnumbered := (numbered_ofRequests d cancellation prompt places requests).run (σ := σ)
    (longestWork d.service.settings requests.length)
  unfold Numbered at hnumbered
  rw [jobs_of_longestWork d cancellation prompt hplaces requests, List.map_nil,
    List.append_nil] at hnumbered
  exact hnumbered

/-- **The outcome of a job that has ended** is found under its index. -/
theorem outcome?_of_mem (h : (c.ended.map Prod.fst).Nodup) {p : Nat × Option Outcome}
    (hp : p ∈ c.ended) : c.outcome? p.1 = p.2 := by
  unfold outcome?
  cases hf : c.ended.find? fun e => e.1 = p.1 with
  | none => exact absurd (decide_eq_true rfl) (List.find?_eq_none.mp hf p hp)
  | some q =>
    have hq : q.1 = p.1 := by simpa using List.find?_some hf
    rw [List.inj_on_of_nodup_map h (List.mem_of_find?_eq_some hf) hp hq]
    rfl

/-- **At the end the outcomes of the list are those of the writes that have ended.** -/
theorem outcomes_perm (h : (c.ended.map Prod.fst).Perm (List.range n)) :
    ((List.range n).map c.outcome?).Perm (c.ended.map Prod.snd) := by
  have hnodup : (c.ended.map Prod.fst).Nodup := h.nodup_iff.mpr List.nodup_range
  refine (h.symm.map c.outcome?).trans (List.Perm.of_eq ?_)
  rw [List.map_map]
  exact List.map_congr_left fun p hp => outcome?_of_mem hnodup hp

theorem announced_perm (h : (c.ended.map Prod.fst).Perm (List.range n)) :
    c.announced.Perm (((List.range n).map c.outcome?).filterMap (·.bind Except.toOption)) := by
  refine List.Perm.trans ?_ ((outcomes_perm h).symm.filterMap _)
  rw [List.filterMap_map]
  exact (List.reverse_perm c.ended).filterMap _

end Crew

/-! ## Lists of writes -/

/-- **Events are recorded and published** one after the other. -/
structure Service.Announces (s : Service) (fs : List Event) (s' : Service) : Prop where
  log : s'.log.events = s.log.events ++ fs
  feed : s'.feed = fs.foldl Feed.publish s.feed

namespace Agrees

variable {σ : Supply} {es : List Event} {d : Deployment}

/-- A crew at the end of its work has announced the events of the writes that have succeeded. -/
theorem ofRequests (h : Agrees es d.service []) (cancellation : Cancellation) (prompt : Bool)
    {places : Nat} (hplaces : 1 ≤ places) (requests : List Request) :
    let c := (Crew.ofRequests d cancellation prompt places requests).run σ
      (Crew.longestWork d.service.settings requests.length)
    ∃ fs, fs.Perm (((List.range requests.length).map c.outcome?).filterMap
        (·.bind Except.toOption)) ∧
      d.service.Announces fs c.deployment.service := by
  intro c
  obtain ⟨fs, hrun, hfs⟩ := (Crew.orderly_ofRequests h cancellation prompt places requests).run
    (σ := σ) (Crew.longestWork d.service.settings requests.length)
  have hended := Crew.ended_of_longestWork (σ := σ) d cancellation prompt hplaces requests
  have hannounced : c.announced = fs := hfs.announced
  refine ⟨fs, ?_, ?_, hfs.feed⟩
  · rw [← hannounced]
    exact Crew.announced_perm hended
  · rw [hrun.agrees.records.events, h.records.events]

/-- **A list of writes announces the events of those that succeed**, each once, and nothing else. -/
theorem performAll (h : Agrees es d.service []) (cancellation : Cancellation) {places : Nat}
    (hplaces : 1 ≤ places) (requests : List Request) :
    ∃ fs, fs.Perm ((d.performAll σ cancellation places requests).1.filterMap
        (·.bind Except.toOption)) ∧
      d.service.Announces fs (d.performAll σ cancellation places requests).2.service :=
  h.ofRequests cancellation true hplaces requests

/-- **A single write announces its event if it succeeds**, and nothing if it fails. -/
theorem announces_perform? (h : Agrees es d.service []) {cancellation : Cancellation}
    {request : Request} {outcome : Outcome} {d' : Deployment}
    (hd : d.perform? σ cancellation request = some (outcome, d')) :
    d.service.Announces outcome.toOption.toList d'.service := by
  unfold Deployment.perform? at hd
  obtain ⟨o, houtcome, ho⟩ := Option.map_eq_some_iff.mp hd
  cases ho
  obtain ⟨fs, hfs, hannounces⟩ :=
    h.ofRequests (σ := σ) cancellation false (Nat.le_refl 1) [request]
  rw [List.length_singleton, show List.range 1 = [0] from rfl, List.map_singleton, houtcome] at hfs
  cases outcome with
  | error fault =>
    have hnil : fs = [] := hfs.eq_nil
    rwa [hnil] at hannounces
  | ok e =>
    have hone : fs = [e] := List.perm_singleton.mp hfs
    rwa [hone] at hannounces

end Agrees

end CatalogChain
