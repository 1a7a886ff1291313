import CatalogChain.Service.Call
import CatalogChain.Service.Deployment

/-!
# Crews

A crew works through a list of writes on one service, a bounded number of them at a time.  Writes
are started in the order of the list.  One that sleeps keeps its place while others go on, and one
that has ended makes room for the next.  When all that have a place sleep, time passes to the
next instant at which one of them wakes, or to the instant at which the whole work is cancelled.

A single write is the work of a crew of one (`Deployment.perform?`).  It comes from the caller, who
is always ahead of a cancellation that falls due at the same instant; the writes of a batch
(`Deployment.performAll`) stand behind it.
-/

namespace CatalogChain

/-- **When work is cancelled.** -/
inductive Cancellation where
  | never
  /-- Before it begins. -/
  | already
  /-- At an instant. -/
  | due (instant : Nat)
deriving DecidableEq, Repr, Inhabited

/-- The cancellation after some time. -/
def Cancellation.after (now time : Nat) : Cancellation := .due (Timer.expiry now time)

/-- The instant at which work is going to be cancelled. -/
def Cancellation.dueAt? : Cancellation → Option Nat
  | due instant => some instant
  | _ => none

/-- A call with its place in the list of writes. -/
structure Job where
  index : Nat
  call : Call

/-- The instant at which the call of a job goes on, if it sleeps. -/
def Job.wakeAt (j : Job) : Nat := j.call.wakeAt?.getD 0

/-- **A crew at work.** -/
structure Crew where
  deployment : Deployment
  /-- Whether a cancellation comes before the jobs that can go on at its instant. -/
  prompt : Bool
  /-- Whether the work is cancelled. -/
  cancelled : Bool
  /-- The instant at which the work is going to be cancelled. -/
  cancelAt : Option Nat
  /-- Jobs that wait for a place. -/
  queue : List Job
  /-- Jobs that have a place and can go on, in this order. -/
  ready : List Job
  /-- Jobs that have a place and sleep, the first to wake in front. -/
  sleeping : List Job
  /-- The outcomes so far, the latest first; a job that has broken off has none. -/
  ended : List (Nat × Option Outcome)

namespace Crew

/-- The most places that a crew can have. -/
def maxPlaces : Nat := twoTo 61 - 1

/-- Puts a sleeping job behind all that wake no later. -/
def insertSleeper (job : Job) : List Job → List Job
  | [] => [job]
  | j :: js => if job.wakeAt < j.wakeAt then job :: j :: js else j :: insertSleeper job js

/-- Goes on with a ready job; one that has ended gives its place to the next of the queue. -/
def work (σ : Supply) (c : Crew) (job : Job) (ready : List Job) : Crew :=
  let d := c.deployment
  let (service, call) := job.call.resume σ d.now c.cancelled d.service
  let c := { c with deployment := { d with service } }
  if call.isOver then
    { c with
      ready := ready ++ c.queue.take 1
      queue := c.queue.drop 1
      ended := (job.index, call.outcome?) :: c.ended }
  else { c with ready, sleeping := insertSleeper ⟨job.index, call⟩ c.sleeping }

/-- Whether the cancellation of the work is due. -/
def isDue (c : Crew) : Bool := c.cancelAt.any fun t => t ≤ c.deployment.now

/-- Cancels the work: all that sleep can go on. -/
def cancel (c : Crew) : Crew :=
  { c with cancelled := true, cancelAt := none, ready := c.ready ++ c.sleeping, sleeping := [] }

/-- The instant at which the first of the sleeping jobs goes on. -/
def nextInstant (c : Crew) (first : Job) : Nat :=
  let wakeAt := max c.deployment.now first.wakeAt
  match c.cancelAt with
  | some t => min wakeAt (max c.deployment.now t)
  | none => wakeAt

/-- Lets time pass until a sleeping job can go on or the work is cancelled. -/
def wake (c : Crew) (first : Job) : Crew :=
  let now := c.nextInstant first
  let awake := fun j : Job => (j.wakeAt ≤ now : Bool)
  { c with
    deployment := c.deployment.passTo now
    ready := c.sleeping.takeWhile awake
    sleeping := c.sleeping.dropWhile awake }

/-- **One step of a crew**, unless all is done. -/
def step (σ : Supply) (c : Crew) : Option Crew :=
  match c.ready, c.sleeping with
  | job :: ready, _ => some (if c.prompt && c.isDue then c.cancel else c.work σ job ready)
  | [], first :: _ => some (if c.isDue then c.cancel else c.wake first)
  | [], [] => none

/-- Works on for at most `n` steps. -/
def run (σ : Supply) : (n : Nat) → Crew → Crew
  | 0, c => c
  | n + 1, c =>
    match c.step σ with
    | none => c
    | some c => run σ n c

/-- A crew of at most `places` at the beginning of its work. -/
def ofRequests (d : Deployment) (cancellation : Cancellation) (prompt : Bool) (places : Nat)
    (requests : List Request) : Crew :=
  let jobs := requests.mapIdx fun index request => ⟨index, .ofRequest request⟩
  { deployment := d
    prompt
    cancelled := cancellation = .already
    cancelAt := cancellation.dueAt?
    queue := jobs.drop places
    ready := jobs.take places
    sleeping := []
    ended := [] }

/-- The most steps that a crew makes: each of its calls goes on at most once for every attempt and
once to be cancelled, and time passes no more often. -/
def longestWork (settings : WriteSettings) (requests : Nat) : Nat :=
  2 * requests * (Call.attemptLimit settings + 1) + 2

/-- The outcome of a job, if it has one. -/
def outcome? (c : Crew) (index : Nat) : Option Outcome :=
  (c.ended.find? fun e => e.1 = index).bind (·.2)

end Crew

namespace Deployment

/-- **Works through a list of writes**, at most `places` at a time: their outcomes in the order of
the list, and the deployment after them.  A write that breaks off has no outcome. -/
def performAll (σ : Supply) (d : Deployment) (cancellation : Cancellation) (places : Nat)
    (requests : List Request) : List (Option Outcome) × Deployment :=
  let steps := Crew.longestWork d.service.settings requests.length
  let crew := (Crew.ofRequests d cancellation true places requests).run σ steps
  ((List.range requests.length).map crew.outcome?, crew.deployment)

/-- **A single write**, unless it breaks off. -/
def perform? (σ : Supply) (d : Deployment) (cancellation : Cancellation) (request : Request) :
    Option (Outcome × Deployment) :=
  let steps := Crew.longestWork d.service.settings 1
  let crew := (Crew.ofRequests d cancellation false 1 [request]).run σ steps
  (crew.outcome? 0).map (·, crew.deployment)

end Deployment

end CatalogChain
