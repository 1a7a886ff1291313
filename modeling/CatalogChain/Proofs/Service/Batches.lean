import CatalogChain.Proofs.Service.Direct
import CatalogChain.Proofs.Service.Outcomes
import CatalogChain.Proofs.Service.Rebuild

/-!
# Batches that need not wait

A crew whose jobs find their locks free never lets time pass: each job that goes on comes to its
end at once, and the next of the queue takes its place.  So the jobs end in the order of the list,
whatever the number of places, and what they do is what the answers to the requests do one after
the other (`Crew.run_eq_answerAll`).  The same holds of a single write, which is the work of a crew
of one (`Deployment.perform?_eq_answer`).

Hence a batch that need not wait is its writes made one by one (`Deployment.performBatch?_eq_each`).
-/

namespace CatalogChain

/-- **Answers requests** one after the other. -/
def Service.answerAll (σ : Supply) (cancelled : Bool) :
    Service → List Request → List Outcome × Service
  | s, [] => ([], s)
  | s, r :: rs =>
    let (outcome, s) := s.answer σ cancelled r
    let (outcomes, s) := answerAll σ cancelled s rs
    (outcome :: outcomes, s)

/-- **Requests that need not wait**: the locks that they need are free. -/
def Service.Unhindered (s : Service) (now : Nat) (requests : List Request) : Prop :=
  ∀ r ∈ requests, r.needsLock = true → s.locks.isLocked now r.lockKey = false

instance (s : Service) (now : Nat) (requests : List Request) :
    Decidable (s.Unhindered now requests) :=
  inferInstanceAs (Decidable (∀ r ∈ requests, _ → _))

namespace Service

variable {σ : Supply} {cancelled : Bool} {s : Service} {now : Nat} {rs : List Request}

theorem Unhindered.answer (h : s.Unhindered now rs) (r : Request) :
    (s.answer σ cancelled r).2.Unhindered now rs :=
  fun r' hr hneeds => s.isLocked_answer σ (h r' hr hneeds)

theorem Unhindered.tail {r : Request} (h : s.Unhindered now (r :: rs)) : s.Unhindered now rs :=
  fun r' hr => h r' (List.mem_cons_of_mem r hr)

theorem answerAll_cons (s : Service) (r : Request) (rs : List Request) :
    s.answerAll σ cancelled (r :: rs) =
      ((s.answer σ cancelled r).1 :: ((s.answer σ cancelled r).2.answerAll σ cancelled rs).1,
        ((s.answer σ cancelled r).2.answerAll σ cancelled rs).2) := rfl

theorem length_answerAll (rs : List Request) (s : Service) :
    (s.answerAll σ cancelled rs).1.length = rs.length := by
  induction rs generalizing s with
  | nil => rfl
  | cons r rs ih => exact congrArg (· + 1) (ih _)

/-- Settings do not matter to answers. -/
theorem answerAll_withSettings (cancelled : Bool) (settings : WriteSettings) (rs : List Request)
    (s : Service) :
    answerAll σ cancelled { s with settings } rs =
      ((s.answerAll σ cancelled rs).1, { (s.answerAll σ cancelled rs).2 with settings }) := by
  induction rs generalizing s with
  | nil => rfl
  | cons r rs ih =>
    simp only [answerAll, answer_withSettings, ih]

theorem settings_answerAll (rs : List Request) (s : Service) :
    (s.answerAll σ cancelled rs).2.settings = s.settings :=
  congrArg (fun x => x.2.settings) (answerAll_withSettings cancelled s.settings rs s)

end Service

/-! ## Crews that need not wait -/

namespace Crew

variable {σ : Supply} {c : Crew}

/-- Jobs that have not begun. -/
def arriving (rs : List (Nat × Request)) : List Job := rs.map fun p => ⟨p.1, .ofRequest p.2⟩

/-- What ended jobs enter in the list of the ended. -/
def entries (rs : List (Nat × Request)) (outcomes : List Outcome) : List (Nat × Option Outcome) :=
  List.zipWith (fun p outcome => (p.1, some outcome)) rs outcomes

/-- **A crew that need not wait**: its jobs have not begun, their locks are free, and it is not
going to be cancelled at once. -/
structure Brisk (rs : List (Nat × Request)) (c : Crew) : Prop where
  jobs : c.ready ++ c.queue = arriving rs
  manned : c.ready = [] → c.queue = []
  sleeping : c.sleeping = []
  calm : (c.prompt && c.isDue) = false
  unhindered : c.deployment.service.Unhindered c.deployment.now (rs.map Prod.snd)

/-- A crew behind the answer to the first request. -/
def answered (σ : Supply) (c : Crew) (p : Nat × Request) (ready : List Job) : Crew :=
  let answer := c.deployment.service.answer σ c.cancelled p.2
  { c with
    deployment := { c.deployment with service := answer.2 }
    ready := ready ++ c.queue.take 1
    queue := c.queue.drop 1
    ended := (p.1, some answer.1) :: c.ended }

/-- **A crew that need not wait answers its first request.** -/
theorem Brisk.step {p : Nat × Request} {rs : List (Nat × Request)} (h : c.Brisk (p :: rs)) :
    ∃ ready, c.step σ = some (c.answered σ p ready) ∧ (c.answered σ p ready).Brisk rs := by
  cases hready : c.ready with
  | nil =>
    have hjobs := h.jobs
    rw [hready, h.manned hready] at hjobs
    cases hjobs
  | cons job ready =>
    have hjobs := h.jobs
    rw [hready, List.cons_append] at hjobs
    obtain ⟨rfl, hrest⟩ := List.cons_eq_cons.mp hjobs
    have hfree : p.2.needsLock = true →
        c.deployment.service.locks.isLocked c.deployment.now p.2.lockKey = false :=
      h.unhindered p.2 (List.mem_cons_self ..)
    have hresumed : resumed σ c ⟨p.1, .ofRequest p.2⟩ =
        ((c.deployment.service.answer σ c.cancelled p.2).2,
          ⟨p.2, .finished (c.deployment.service.answer σ c.cancelled p.2).1⟩) :=
      Call.resume_ofRequest hfree
    have hwork : c.work σ ⟨p.1, .ofRequest p.2⟩ ready = c.answered σ p ready := by
      rw [work_of_isOver ready (by rw [hresumed]; rfl), hresumed]
      rfl
    refine ⟨ready, ?_, ?_, fun hnil => ?_, h.sleeping, h.calm, h.unhindered.tail.answer p.2⟩
    · unfold Crew.step
      rw [hready]
      simp only [h.calm, hwork]
      rfl
    · show ready ++ c.queue.take 1 ++ c.queue.drop 1 = arriving rs
      rw [List.append_assoc, List.take_append_drop, hrest]
      rfl
    · -- a place that nobody takes is one for which nobody waits
      obtain ⟨-, htake⟩ := List.append_eq_nil_iff.mp hnil
      rw [List.take_eq_nil_iff] at htake
      show c.queue.drop 1 = []
      rw [htake.resolve_left Nat.one_ne_zero, List.drop_nil]

/-- **The work of a crew that need not wait** is to answer its requests one after the other. -/
theorem run_eq_answerAll {rs : List (Nat × Request)} (h : c.Brisk rs) {n : Nat}
    (hn : rs.length ≤ n) :
    let answers := c.deployment.service.answerAll σ c.cancelled (rs.map Prod.snd)
    (c.run σ n).deployment = { c.deployment with service := answers.2 } ∧
      (c.run σ n).ended = (entries rs answers.1).reverse ++ c.ended := by
  induction rs generalizing c n with
  | nil =>
    obtain ⟨hready, hqueue⟩ := List.append_eq_nil_iff.mp h.jobs
    have hstep : c.step σ = none := by
      unfold Crew.step
      rw [hready, h.sleeping]
    have hrun : c.run σ n = c := by
      cases n with
      | zero => rfl
      | succ n => rw [Crew.run, hstep]
    rw [hrun]
    exact ⟨rfl, rfl⟩
  | cons p rs ih =>
    obtain ⟨n, rfl⟩ : ∃ k, n = k + 1 := ⟨n - 1, by rw [List.length_cons] at hn; omega⟩
    obtain ⟨ready, hstep, hbrisk⟩ := h.step (σ := σ)
    have hrun : c.run σ (n + 1) = (c.answered σ p ready).run σ n := by
      rw [Crew.run, hstep]
    obtain ⟨hdeployment, hended⟩ := ih hbrisk (Nat.le_of_succ_le_succ hn)
    rw [hrun, hdeployment, hended]
    refine ⟨rfl, ?_⟩
    show _ = (_ :: entries rs _).reverse ++ c.ended
    rw [List.reverse_cons, List.append_assoc]
    rfl

/-- Requests with their places in a list. -/
def indexed (requests : List Request) : List (Nat × Request) :=
  requests.mapIdx fun index request => (index, request)

theorem snd_indexed (requests : List Request) : (indexed requests).map Prod.snd = requests :=
  List.ext_getElem (by simp [indexed]) fun i hi hi' => by simp [indexed]

theorem arriving_indexed (requests : List Request) : arriving (indexed requests) =
    requests.mapIdx fun index request => ⟨index, .ofRequest request⟩ :=
  List.ext_getElem (by simp [arriving, indexed]) fun i hi hi' => by simp [arriving, indexed]

theorem length_longestWork (settings : WriteSettings) (n : Nat) : n ≤ longestWork settings n := by
  unfold longestWork
  have hle : n * 1 ≤ n * (Call.attemptLimit settings + 1) :=
    Nat.mul_le_mul_left n (Nat.le_add_left ..)
  have htwo : 2 * n * (Call.attemptLimit settings + 1) =
      2 * (n * (Call.attemptLimit settings + 1)) := Nat.mul_assoc ..
  omega

/-- Outcomes that have been entered are found under the places of their requests. -/
theorem outcomes_of_ended {requests : List Request} {outcomes : List Outcome}
    (hlen : outcomes.length = requests.length)
    (h : c.ended = (entries (indexed requests) outcomes).reverse) :
    (List.range requests.length).map c.outcome? = outcomes.map some := by
  have hfst : (entries (indexed requests) outcomes).map Prod.fst = List.range requests.length :=
    List.ext_getElem (by simp [entries, indexed, hlen]) fun i hi hi' => by
      simp [entries, indexed]
  have hnodup : (c.ended.map Prod.fst).Nodup := by
    rw [h, List.map_reverse, hfst]
    exact List.nodup_reverse.mpr List.nodup_range
  refine List.ext_getElem (by simp [hlen]) fun i hi hi' => ?_
  have hi : i < outcomes.length := by simpa using hi'
  have hmem : (i, some outcomes[i]) ∈ c.ended := by
    rw [h, List.mem_reverse]
    exact List.mem_iff_getElem.mpr
      ⟨i, by simpa [entries, indexed, hlen] using hlen ▸ hi, by simp [entries, indexed]⟩
  simpa using outcome?_of_mem hnodup hmem

section Begin
variable {d : Deployment} (cancellation : Cancellation) (prompt : Bool) {places : Nat}
  {requests : List Request} (hplaces : 1 ≤ places)
  (hfree : d.service.Unhindered d.now requests)
  (hcalm : prompt = true → ∀ t, cancellation = .due t → d.now < t)
include hplaces hfree hcalm

/-- A crew at the beginning of its work need not wait if its requests need not. -/
theorem brisk_ofRequests :
    (ofRequests d cancellation prompt places requests).Brisk (indexed requests) := by
  have hjobs : (ofRequests d cancellation prompt places requests).ready ++
      (ofRequests d cancellation prompt places requests).queue = arriving (indexed requests) := by
    rw [arriving_indexed]
    exact List.take_append_drop ..
  refine ⟨hjobs, fun hready => ?_, rfl, ?_, ?_⟩
  · rcases List.take_eq_nil_iff.mp hready with h0 | hnil
    · omega
    · show List.drop _ _ = []
      rw [hnil, List.drop_nil]
  · cases hp : prompt with
    | false => rfl
    | true =>
      refine Bool.eq_false_iff.mpr fun hdue => ?_
      obtain ⟨t, hat, ht⟩ := isDue_iff.mp hdue
      cases cancellation with
      | never | already => cases hat
      | due t' =>
        cases hat
        exact absurd (hcalm hp t rfl) (Nat.not_lt.mpr ht)
  · rw [snd_indexed]
    exact hfree

/-- **A crew whose requests need not wait** answers them in the order of the list. -/
theorem answers_of_ofRequests (σ : Supply) :
    let crew := (ofRequests d cancellation prompt places requests).run σ
      (longestWork d.service.settings requests.length)
    let answers := d.service.answerAll σ (cancellation = .already) requests
    crew.deployment = { d with service := answers.2 } ∧
      (List.range requests.length).map crew.outcome? = answers.1.map some := by
  have hlen : (indexed requests).length ≤ longestWork d.service.settings requests.length := by
    rw [indexed, List.length_mapIdx]
    exact length_longestWork ..
  obtain ⟨hdeployment, hended⟩ :=
    run_eq_answerAll (σ := σ) (brisk_ofRequests cancellation prompt hplaces hfree hcalm) hlen
  rw [snd_indexed] at hdeployment hended
  refine ⟨hdeployment, outcomes_of_ended (Service.length_answerAll ..) ?_⟩
  rw [hended]
  exact List.append_nil _

end Begin

end Crew

/-! ## Writes one by one -/

namespace Deployment

variable {σ : Supply} {d : Deployment} (cancellation : Cancellation)

/-- **A single write that need not wait** is its answer. -/
theorem perform?_eq_answer {request : Request} (hfree : d.service.Unhindered d.now [request]) :
    d.perform? σ cancellation request =
      some ((d.service.answer σ (cancellation = .already) request).1,
        { d with service := (d.service.answer σ (cancellation = .already) request).2 }) := by
  obtain ⟨hdeployment, houtcome⟩ := Crew.answers_of_ofRequests cancellation false (Nat.le_refl 1)
    hfree (fun h => Bool.noConfusion h) σ
  have hone : Crew.outcome? ((Crew.ofRequests d cancellation false 1 [request]).run σ
      (Crew.longestWork d.service.settings 1)) 0 =
      some (d.service.answer σ (cancellation = .already) request).1 :=
    (List.cons_eq_cons.mp houtcome).1
  unfold perform?
  exact (congrArg (Option.map _) hone).trans (congrArg (fun d => some (_, d)) hdeployment)

/-- **Single writes one after the other**, unless one of them breaks off. -/
def performEach? (σ : Supply) (cancellation : Cancellation) :
    Deployment → List Request → Option (List Outcome × Deployment)
  | d, [] => some ([], d)
  | d, r :: rs =>
    (d.perform? σ cancellation r).bind fun (outcome, d) =>
      (performEach? σ cancellation d rs).map fun (outcomes, d) => (outcome :: outcomes, d)

/-- **Single writes that need not wait** are answered one after the other. -/
theorem performEach?_eq_answerAll {requests : List Request}
    (hfree : d.service.Unhindered d.now requests) :
    d.performEach? σ cancellation requests =
      some ((d.service.answerAll σ (cancellation = .already) requests).1,
        { d with service := (d.service.answerAll σ (cancellation = .already) requests).2 }) := by
  induction requests generalizing d with
  | nil => rfl
  | cons r rs ih =>
    have hone : d.service.Unhindered d.now [r] := fun r' hr =>
      hfree r' (List.mem_cons.mpr (.inl (List.mem_singleton.mp hr)))
    rw [performEach?, perform?_eq_answer cancellation hone, Option.bind_some]
    simp only [ih (d := { d with service := _ }) (hfree.tail.answer r)]
    rfl

/-- The same deployment with another number of places for batches. -/
def withConcurrency (d : Deployment) (concurrency : Nat) : Deployment :=
  { d with service := { d.service with settings := { d.service.settings with concurrency } } }

/-- **A batch that need not wait** is its requests answered one after the other. -/
theorem performBatch?_eq_answerAll {requests : List Request}
    (hfree : d.service.Unhindered d.now requests)
    (hcalm : ∀ t, cancellation = .due t → d.now < t)
    (hplaces : d.service.settings.places ≤ Crew.maxPlaces) :
    d.performBatch? σ cancellation requests =
      some (List.zipWith BatchResult.ofOutcome requests
          ((d.service.answerAll σ (cancellation = .already) requests).1.map some),
        { d with service := (d.service.answerAll σ (cancellation = .already) requests).2 }) := by
  obtain ⟨hdeployment, houtcomes⟩ := Crew.answers_of_ofRequests cancellation true
    (Nat.le_max_left 1 d.service.settings.concurrency) hfree (fun _ => hcalm) σ
  unfold performBatch?
  rw [if_pos hplaces, performBatch, performAll]
  exact congrArg some (Prod.ext (congrArg (List.zipWith BatchResult.ofOutcome requests) houtcomes)
    hdeployment)

/-- **A batch that need not wait is its writes made one by one**, for any number of places: it has
their outcomes as its results, and leaves the deployment that they leave. -/
theorem performBatch?_eq_each {requests : List Request}
    (hfree : d.service.Unhindered d.now requests)
    (hcalm : ∀ t, cancellation = .due t → d.now < t) :
    ∃ outcomes d', d.performEach? σ cancellation requests = some (outcomes, d') ∧
      ∀ concurrency, max 1 concurrency ≤ Crew.maxPlaces →
        (d.withConcurrency concurrency).performBatch? σ cancellation requests =
          some (List.zipWith BatchResult.ofOutcome requests (outcomes.map some),
            d'.withConcurrency concurrency) := by
  refine ⟨_, _, performEach?_eq_answerAll cancellation hfree, fun concurrency hplaces => ?_⟩
  rw [performBatch?_eq_answerAll (d := d.withConcurrency concurrency) cancellation hfree hcalm
    hplaces]
  have hsettings := Service.answerAll_withSettings (σ := σ) (cancellation = .already)
    { d.service.settings with concurrency } requests d.service
  simp only [withConcurrency, hsettings, Service.settings_answerAll]

/-- A deployment with the product `prod_1`, while somebody else holds the lock on `prod_2`. -/
def sample : Deployment :=
  let d := (fresh {} default).run .sample (Operation.sample.take 1)
  { d with service.locks := ⟨d.service.locks.locks.put (Product.lockKey "prod_2") ⟨1, 120⟩, 1⟩ }

theorem performBatch?_sample :
    let requests := [.update (Product.sample 89950 2 "wh-2"), .remove "prod_1", .remove "prod_1"]
    sample.service.Unhindered sample.now requests ∧
      ∃ outcomes d', sample.performEach? .sample .never requests = some (outcomes, d') ∧
        ∀ concurrency, max 1 concurrency ≤ Crew.maxPlaces →
          (sample.withConcurrency concurrency).performBatch? .sample .never requests =
            some (List.zipWith BatchResult.ofOutcome requests (outcomes.map some),
              d'.withConcurrency concurrency) := by
  have hfree : sample.service.Unhindered sample.now
      [.update (Product.sample 89950 2 "wh-2"), .remove "prod_1", .remove "prod_1"] := by
    decide +kernel
  exact ⟨hfree, performBatch?_eq_each .never hfree fun t h => by cases h⟩

end Deployment

end CatalogChain
