import CatalogChain.Service.Basic
import CatalogChain.Timer

/-!
# Writes

A write is a call that goes through stages.  One step of a call (`Call.step`) touches one part of
the service: it tries the lock, reads the live table, appends to the log, commits to the live
table, publishes, or releases the lock.  Other calls may make their steps in between.  An update
or a deletion whose lock is held sleeps and tries again, later each time; a creation needs no
lock.

The outcome of a call is the event that it has recorded, or a fault.  Only a call that would have
to wait for more seconds than 64 bits can count has none: it breaks off.
-/

namespace CatalogChain

/-- **What a write asks for.** -/
inductive Request where
  | create (draft : Content)
  | update (candidate : Product)
  | remove (id : String)
deriving Inhabited

/-- The id of the product that is written; a new product has none yet. -/
def Request.target : Request → String
  | create _ => ""
  | update candidate => candidate.id
  | remove id => id

/-- The key of the lock that a write needs. -/
def Request.lockKey (r : Request) : String := Product.lockKey r.target

/-- **The outcome of a write.** -/
abbrev Outcome := Except Fault Event

/-- **The stages of a write.** -/
inductive Stage where
  /-- Nothing has been done. -/
  | arrived
  /-- The lock is to be tried for the n-th time. -/
  | attempting (n : Nat)
  /-- The lock has been tried n times, and is tried again at an instant. -/
  | asleep (n wakeAt : Nat)
  /-- The lock is held, and the live table is to be read. -/
  | reading (lock : Token)
  /-- The event is to be appended to the log. -/
  | appending (lock : Option Token) (event : Event)
  /-- The event is recorded, and to be committed to the live table. -/
  | committing (lock : Option Token) (event : Event)
  /-- The event is to be published. -/
  | publishing (lock : Option Token) (event : Event)
  /-- The lock is to be released. -/
  | releasing (lock : Token) (outcome : Outcome)
  | finished (outcome : Outcome)
  /-- The call has ended without an outcome. -/
  | broken

/-- **A write at a stage.** -/
structure Call where
  request : Request
  stage : Stage

namespace Call

/-- A call that arrives. -/
def ofRequest (request : Request) : Call := ⟨request, .arrived⟩

/-- The call at another stage. -/
def goto (c : Call) (stage : Stage) : Call := { c with stage }

/-- The call with its lock released, if it has one, and its outcome. -/
def conclude (c : Call) (lock : Option Token) (outcome : Outcome) : Call :=
  c.goto <|
    match lock with
    | none => .finished outcome
    | some token => .releasing token outcome

/-- The outcome of a call that is finished. -/
def outcome? (c : Call) : Option Outcome :=
  match c.stage with
  | .finished outcome => some outcome
  | _ => none

/-- The instant at which a sleeping call goes on. -/
def wakeAt? (c : Call) : Option Nat :=
  match c.stage with
  | .asleep _ wakeAt => some wakeAt
  | _ => none

/-- How often a lock is tried. -/
def attemptLimit (settings : WriteSettings) : Nat := max 1 settings.attempts

/-- The time that a call waits behind its n-th attempt, if it has at most 64 bits of seconds. -/
def wait? (settings : WriteSettings) (n : Nat) : Option Nat :=
  if settings.backoff * n / 1000 < twoTo 64 then some (settings.backoff * n) else none

/-- Checks what a call asks for, and goes for the lock or, for a new product, for the log. -/
def arrive (σ : Supply) (s : Service) (c : Call) : Service × Call :=
  match c.request with
  | .create draft =>
    match draft.validate with
    | .error v => (s, c.goto (.finished (.error (.ofViolation v))))
    | .ok () =>
      let (event, s) := s.creation σ draft
      (s, c.goto (.appending none event))
  | .update candidate =>
    match candidate.validate with
    | .error v => (s, c.goto (.finished (.error (.ofViolation v))))
    | .ok () => (s, c.goto (.attempting 1))
  | .remove _ => (s, c.goto (.attempting 1))

/-- The call given up because it is cancelled. -/
def abandon (c : Call) : Call := c.goto (.finished (.error (.cancelled c.request.lockKey)))

/-- The call put to sleep behind its n-th attempt, or broken off. -/
def sleep (settings : WriteSettings) (now n : Nat) (c : Call) : Call :=
  match wait? settings n with
  | some time => c.goto (.asleep n (Timer.expiry now time))
  | none => c.goto .broken

/-- Tries the lock for the n-th time: the call holds it then, sleeps, or gives up. -/
def attempt (now : Nat) (cancelled : Bool) (s : Service) (c : Call) (n : Nat) : Service × Call :=
  match s.locks.request cancelled now c.request.lockKey s.settings.lockTtl with
  | .cancelled => (s, c.abandon)
  | .granted token locks => ({ s with locks }, c.goto (.reading token))
  | .refused =>
    if n < attemptLimit s.settings then (s, c.sleep s.settings now n)
    else (s, c.goto (.finished (.error (.lockContention c.request.target))))

/-- Reads the current value of the product and prepares the event. -/
def prepare (σ : Supply) (s : Service) (c : Call) (lock : Token) : Service × Call :=
  match s.get c.request.target with
  | .error fault => (s, c.conclude lock (.error fault))
  | .ok current =>
    match c.request with
    | .update candidate =>
      if candidate.version ≠ current.version then
        let fault := Fault.versionConflict current.id candidate.version current.version
        (s, c.conclude lock (.error fault))
      else
        let (event, s) := s.revision σ current candidate
        (s, c.goto (.appending lock event))
    | _ =>
      let (event, s) := s.deletion σ current
      (s, c.goto (.appending lock event))

/-- Appends the event to the log. -/
def append (s : Service) (c : Call) (lock : Option Token) (event : Event) : Service × Call :=
  match s.log.append event with
  | (.error fault, log) => ({ s with log }, c.conclude lock (.error fault))
  | (.ok recorded, log) => ({ s with log }, c.goto (.committing lock recorded))

/-- **One step of a call.**  A call that is cancelled notices when it tries the lock or sleeps. -/
def step (σ : Supply) (now : Nat) (cancelled : Bool) (s : Service) (c : Call) : Service × Call :=
  match c.stage with
  | .arrived => c.arrive σ s
  | .attempting n => c.attempt now cancelled s n
  | .asleep n wakeAt =>
    if cancelled then (s, c.abandon)
    else if now < wakeAt then (s, c)
    else (s, c.goto (.attempting (n + 1)))
  | .reading lock => c.prepare σ s lock
  | .appending lock event => c.append s lock event
  | .committing lock event =>
    ({ s with live := s.live.apply event }, c.goto (.publishing lock event))
  | .publishing lock event =>
    ({ s with feed := s.feed.publish event }, c.conclude lock (.ok event))
  | .releasing lock outcome =>
    ({ s with locks := (s.locks.releaseOwned c.request.lockKey lock).2 },
      c.goto (.finished outcome))
  | .finished _ | .broken => (s, c)

/-- Whether a call has ended. -/
def isOver (c : Call) : Bool :=
  match c.stage with
  | .finished _ | .broken => true
  | _ => false

/-- Whether a call can only wait: it has ended, or it sleeps on and is not cancelled. -/
def isSuspended (now : Nat) (cancelled : Bool) (c : Call) : Bool :=
  match c.stage with
  | .finished _ | .broken => true
  | .asleep _ wakeAt => !cancelled && now < wakeAt
  | _ => false

/-- Goes on with a call until it can only wait, at most `n` steps. -/
def settle (σ : Supply) (now : Nat) (cancelled : Bool) :
    (n : Nat) → Service → Call → Service × Call
  | 0, s, c => (s, c)
  | n + 1, s, c =>
    if c.isSuspended now cancelled then (s, c)
    else
      let (s, c) := c.step σ now cancelled s
      settle σ now cancelled n s c

/-- The most steps that a call makes at one instant.  Waits of no time are over at once. -/
def longestRun (settings : WriteSettings) : Nat := 2 * attemptLimit settings + 6

/-- **Goes on with a call** at one instant. -/
def resume (σ : Supply) (now : Nat) (cancelled : Bool) (s : Service) (c : Call) :
    Service × Call :=
  c.settle σ now cancelled (longestRun s.settings) s

end Call

end CatalogChain
