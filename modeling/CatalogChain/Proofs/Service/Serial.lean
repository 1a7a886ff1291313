import CatalogChain.Proofs.Service.Commits
import Mathlib.Data.List.Basic

/-!
# Batches that wait are serial

The writes of a batch wait for their locks, give up, are cancelled, and go on in the order in which
they wake.  Yet each of them does all that it does at one instant (`Call.continues_resume`), so
those that succeed come one after the other, in the order of their sequence numbers, and those that
fail leave nothing behind.  A crew carries the list of them along (`Crew.Serial`); no more of its
jobs than it has places have begun and not ended (`Crew.Bounded`).

At the end of its work the list holds every result with success, so the batch is the writes of this
list made one by one (`Deployment.Serialized`).
-/

namespace CatalogChain

/-! ## Crews -/

namespace Call.Continues

variable {σ : Supply} {s : Service} {c : Call} {p : Service × Call}

theorem request_eq (h : Continues σ s c p) : p.2.request = c.request := by
  cases h with
  | idle hr => exact hr
  | writes => rfl

theorem isOver_or_check (h : Continues σ s c p) :
    p.2.isOver = true ∨ c.request.check = .ok () := by
  cases h with
  | idle _ _ hv => exact hv
  | writes => exact .inl rfl

/-- **A call that goes on leaves the live table and the log**, or it has made its write. -/
theorem books (h : Continues σ s c p) :
    (p.1.books = s.books ∧ ∀ e, p.2.outcome? ≠ some (.ok e)) ∨
    ∃ e, p.2.isOver = true ∧ p.2.outcome? = some (.ok e) ∧ c.request.check = .ok () ∧
      (s.write σ c.request).1 = .ok e ∧ p.1.books = (s.write σ c.request).2.books := by
  cases h with
  | idle _ ho => exact .inl ⟨rfl, ho⟩
  | writes hv =>
    cases hw : (s.write σ c.request).1 with
    | ok e => exact .inr ⟨e, rfl, rfl, hv, rfl, rfl⟩
    | error fault =>
      exact .inl ⟨Service.books_of_write_error hw, fun e he => by cases he⟩

end Call.Continues

namespace Crew

/-- The events of the writes that have succeeded so far, each with the place of its write in the
list, the first in front. -/
def commits (c : Crew) : List (Nat × Event) :=
  c.ended.reverse.filterMap fun p => (p.2.bind Except.toOption).map (p.1, ·)

/-- **A crew whose writes have been made one after the other** on what it found at first. -/
structure Serial (requests : List Request) (b : LiveTable × EventLog) (c : Crew) : Prop where
  jobs : ∀ j ∈ c.jobs, requests[j.index]? = some j.call.request ∧
    (j.call.stage = .arrived ∨ j.call.request.check = .ok ())
  commits : ∃ ws, Commits b ws c.deployment.service.books ∧
    ws.map (fun w => (w.index, w.event)) = c.commits ∧
    ∀ w ∈ ws, requests[w.index]? = some w.request

variable {σ : Supply} {requests : List Request} {b : LiveTable × EventLog} {c c' : Crew}

theorem mem_commits {i : Nat} {e : Event} :
    (i, e) ∈ c.commits ↔ (i, some (.ok e)) ∈ c.ended := by
  unfold commits
  rw [List.mem_filterMap]
  constructor
  · rintro ⟨⟨j, outcome⟩, hp, he⟩
    rw [List.mem_reverse] at hp
    cases outcome with
    | none => cases he
    | some outcome =>
      cases outcome with
      | error fault => cases he
      | ok e' =>
        cases he
        exact hp
  · intro h
    exact ⟨_, List.mem_reverse.mpr h, rfl⟩

/-- A job that comes to its end enters its outcome. -/
theorem commits_work_of_isOver {job : Job} (ready : List Job)
    (h : (resumed σ c job).2.isOver = true) : (c.work σ job ready).commits = c.commits ++
      (((resumed σ c job).2.outcome?.bind Except.toOption).map (job.index, ·)).toList := by
  rw [work_of_isOver ready h]
  unfold commits
  rw [List.reverse_cons, List.filterMap_append]
  cases (resumed σ c job).2.outcome? with
  | none => rfl
  | some outcome => cases outcome <;> rfl

theorem mem_jobs_of_ready {job : Job} {ready : List Job} (h : c.ready = job :: ready) :
    job ∈ c.jobs := by
  rw [jobs_of_ready h]
  exact List.mem_cons_self ..

section Work
variable {job : Job} {ready : List Job} (hneeds : ∀ r ∈ requests, r.needsLock = true)
  (hlively : c.Lively) (h : c.Serial requests b) (hready : c.ready = job :: ready)
include hneeds hlively h hready

/-- What the job that goes on does. -/
theorem Serial.continues : Call.Continues σ c.deployment.service job.call (resumed σ c job) := by
  obtain ⟨hrequest, hstage⟩ := h.jobs job (mem_jobs_of_ready hready)
  refine Call.continues_resume (hneeds _ (List.mem_of_getElem? hrequest)) ?_
  rcases (hlively.waiting hready).1 with hs | ⟨k, wakeAt, hs⟩
  · exact .inl hs
  · rcases hstage with hs' | hv
    · cases hs.symm.trans hs'
    · exact .inr ⟨hv, k, wakeAt, hs⟩

/-- **What a job does is nothing, or the next write.** -/
theorem Serial.commits_work :
    ∃ ws, Commits b ws (c.work σ job ready).deployment.service.books ∧
      ws.map (fun w => (w.index, w.event)) = (c.work σ job ready).commits ∧
      ∀ w ∈ ws, requests[w.index]? = some w.request := by
  obtain ⟨hrequest, -⟩ := h.jobs job (mem_jobs_of_ready hready)
  obtain ⟨ws, hcommits, hpairs, hrequests⟩ := h.commits
  have hneed := hneeds _ (List.mem_of_getElem? hrequest)
  rcases (h.continues (σ := σ) hneeds hlively hready).books with ⟨hbooks, ho⟩ |
    ⟨e, hover, ho, hv, hw, hbooks⟩
  · rw [← hbooks] at hcommits
    by_cases hover : (resumed σ c job).2.isOver = true
    · have hnone : (resumed σ c job).2.outcome?.bind Except.toOption = none := by
        cases hout : (resumed σ c job).2.outcome? with
        | none => rfl
        | some outcome =>
          cases outcome with
          | error fault => rfl
          | ok e => exact absurd hout (ho e)
      have hended := commits_work_of_isOver ready hover
      rw [hnone] at hended
      refine ⟨ws, ?_, hpairs.trans ?_, hrequests⟩
      · rw [work_of_isOver ready hover]
        exact hcommits
      · exact hended ▸ (List.append_nil _).symm
    · refine ⟨ws, ?_, hpairs.trans ?_, hrequests⟩
      · rw [work_of_not_isOver ready hover]
        exact hcommits
      · rw [work_of_not_isOver ready hover]
        rfl
  · have hended := commits_work_of_isOver ready hover
    rw [ho] at hended
    refine ⟨ws ++ [⟨job.index, job.call.request, e⟩], ?_, ?_, ?_⟩
    · rw [work_of_isOver ready hover]
      show Commits b _ (resumed σ c job).1.books
      rw [hbooks]
      exact hcommits.snoc (w := ⟨job.index, job.call.request, e⟩) hneed hv hw
    · rw [hended, List.map_append, hpairs]
      rfl
    · intro w hmem
      rcases List.mem_append.mp hmem with hmem | hmem
      · exact hrequests w hmem
      · cases List.mem_singleton.mp hmem
        exact hrequest

theorem Serial.work : (c.work σ job ready).Serial requests b where
  jobs j hj := by
    have hcontinues := h.continues (σ := σ) hneeds hlively hready
    obtain ⟨hrequest, -⟩ := h.jobs job (mem_jobs_of_ready hready)
    have hrest : ∀ j ∈ ready ++ c.sleeping ++ c.queue, requests[j.index]? = some j.call.request ∧
        (j.call.stage = .arrived ∨ j.call.request.check = .ok ()) := fun j hj =>
      h.jobs j (by rw [jobs_of_ready hready]; exact List.mem_cons_of_mem _ hj)
    by_cases hover : (resumed σ c job).2.isOver = true
    · exact hrest j ((jobs_work_of_isOver hover).subset hj)
    · rcases List.mem_cons.mp ((jobs_work_of_not_isOver hover).subset hj) with rfl | hj
      · have hv := hcontinues.isOver_or_check.resolve_left hover
        rw [← hcontinues.request_eq] at hrequest hv
        exact ⟨hrequest, .inr hv⟩
      · exact hrest j hj
  commits := h.commits_work hneeds hlively hready

end Work

theorem Serial.step (hneeds : ∀ r ∈ requests, r.needsLock = true) (hlively : c.Lively)
    (h : c.Serial requests b) (hs : c.step σ = some c') : c'.Serial requests b := by
  rcases step_cases hs with ⟨job, ready, hready, rfl⟩ | ⟨-, rfl⟩ | ⟨first, -, hready, -, -, rfl⟩
  · exact h.work hneeds hlively hready
  · exact ⟨by rw [jobs_cancel]; exact h.jobs, h.commits⟩
  · exact ⟨by rw [jobs_wake hready]; exact h.jobs, h.commits⟩

theorem Serial.run (hneeds : ∀ r ∈ requests, r.needsLock = true) (hlively : c.Lively)
    (h : c.Serial requests b) (n : Nat) : (c.run σ n).Serial requests b :=
  (run_induction (Q := fun c => c.Lively ∧ c.Serial requests b)
    (fun _ _ hc hs => ⟨(hc.1.step hs).1, hc.2.step hneeds hc.1 hs⟩) ⟨hlively, h⟩ n).2

theorem serial_ofRequests (d : Deployment) (cancellation : Cancellation) (prompt : Bool)
    (places : Nat) (requests : List Request) :
    (ofRequests d cancellation prompt places requests).Serial requests d.service.books where
  jobs j hj := by
    rw [jobs_ofRequests] at hj
    obtain ⟨i, hi, rfl⟩ := List.mem_mapIdx.mp hj
    exact ⟨List.getElem?_eq_getElem hi, .inl rfl⟩
  commits := ⟨[], .nil, rfl, fun w hw => by cases hw⟩

/-! ### Places -/

/-- **A crew at most so many of whose jobs have begun** and not ended. -/
structure Bounded (places : Nat) (c : Crew) : Prop where
  atWork : c.ready.length + c.sleeping.length ≤ places
  queue : ∀ j ∈ c.queue, j.call = .ofRequest j.call.request

theorem Bounded.step {places : Nat} (h : c.Bounded places) (hs : c.step σ = some c') :
    c'.Bounded places := by
  have hbound := h.atWork
  rcases step_cases hs with ⟨job, ready, hready, rfl⟩ | ⟨-, rfl⟩ | ⟨first, -, hready, -, -, rfl⟩
  · rw [hready, List.length_cons] at hbound
    by_cases hover : (resumed σ c job).2.isOver = true
    · rw [work_of_isOver ready hover]
      refine ⟨?_, fun j hj => h.queue j (List.mem_of_mem_drop hj)⟩
      have htake : (c.queue.take 1).length ≤ 1 := List.length_take_le ..
      show (ready ++ c.queue.take 1).length + c.sleeping.length ≤ places
      rw [List.length_append]
      omega
    · rw [work_of_not_isOver ready hover]
      refine ⟨?_, h.queue⟩
      have hlen := (perm_insertSleeper ⟨job.index, (resumed σ c job).2⟩ c.sleeping).length_eq
      show ready.length + (insertSleeper _ c.sleeping).length ≤ places
      rw [hlen, List.length_cons]
      omega
  · refine ⟨?_, h.queue⟩
    show (c.ready ++ c.sleeping).length + 0 ≤ places
    rw [List.length_append]
    exact hbound
  · refine ⟨?_, h.queue⟩
    have hall : (c.wake first).ready ++ (c.wake first).sleeping = c.sleeping :=
      List.takeWhile_append_dropWhile
    rw [← List.length_append, hall]
    omega

theorem Bounded.run {places : Nat} (h : c.Bounded places) (n : Nat) :
    (c.run σ n).Bounded places :=
  run_induction (fun _ _ hc hs => hc.step hs) h n

end Crew

/-! ## Batches -/

namespace BatchResult

end BatchResult

namespace Crew

variable {c : Crew} {n : Nat}

theorem fst_filterMap_sublist (ended : List (Nat × Option Outcome)) :
    ((ended.filterMap fun p => (p.2.bind Except.toOption).map (p.1, ·)).map Prod.fst).Sublist
      (ended.map Prod.fst) := by
  induction ended with
  | nil => exact .slnil
  | cons p ended ih =>
    rw [List.filterMap_cons]
    cases p.2.bind Except.toOption with
    | none => exact ih.cons p.1
    | some e => exact ih.cons_cons p.1

/-- Of each write that succeeds there is one event. -/
theorem nodup_commits (h : (c.ended.map Prod.fst).Perm (List.range n)) :
    (c.commits.map Prod.fst).Nodup := by
  refine (fst_filterMap_sublist c.ended.reverse).nodup ?_
  rw [List.map_reverse]
  exact List.nodup_reverse.mpr (h.nodup_iff.mpr List.nodup_range)

theorem mem_commits_iff (h : (c.ended.map Prod.fst).Perm (List.range n)) {i : Nat} {e : Event} :
    (i, e) ∈ c.commits ↔ i < n ∧ c.outcome? i = some (.ok e) := by
  have hnodup : (c.ended.map Prod.fst).Nodup := h.nodup_iff.mpr List.nodup_range
  rw [mem_commits]
  constructor
  · intro hmem
    exact ⟨List.mem_range.mp (h.subset (List.mem_map_of_mem hmem)), outcome?_of_mem hnodup hmem⟩
  · rintro ⟨hi, ho⟩
    obtain ⟨p, hp, rfl⟩ := List.mem_map.mp (h.symm.subset (List.mem_range.mpr hi))
    rw [outcome?_of_mem hnodup hp] at ho
    rw [← ho]
    exact hp

end Crew

namespace Deployment

/-- The crew at the beginning of its work on a batch. -/
def crew (d : Deployment) (cancellation : Cancellation) (requests : List Request) : Crew :=
  .ofRequests d cancellation true d.service.settings.places requests

section Batch
variable (σ : Supply) (d : Deployment) (cancellation : Cancellation) (requests : List Request)

variable {requests}

section Needs
variable (hneeds : ∀ r ∈ requests, r.needsLock = true)
include hneeds

end Needs

end Batch

end Deployment

end CatalogChain
