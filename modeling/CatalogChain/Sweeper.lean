import CatalogChain.LockTable

/-!
# Sweeping on schedule

A sweeper drops the expired locks when it starts and then once in every interval.  A sweep can be
made later than it is due, namely when the sweeper gets to work (`Sweeper.tick`).  If that is only a
little later, the sweeps that follow stay where they are; a sweep that is later than
`Sweeper.tolerance` puts them off, and the next one is due an interval from then.

`Sweeper.passTo` is what happens to a table of locks while the clock goes on from one due sweep to
the next, so that each is made at its own instant.  `Sweeper.rouse` is what happens when a sweeper
gets to work behind the instants at which its sweeps were due.  Several sweepers can work on one
table (`Roster`).
-/

namespace CatalogChain

/-- **A sweeper**: the length of its interval and the instant of its next sweep. -/
structure Sweeper where
  interval : Nat
  next : Nat
deriving DecidableEq, Repr

namespace Sweeper

/-- The interval of a sweeper for which none is given. -/
def defaultInterval : Nat := 100

/-- **Starts a sweeper**: the first sweep is made at once.  An interval of nothing is no schedule,
and such a sweeper never sweeps. -/
def start (interval now : Nat) (locks : LockTable) : Sweeper × LockTable :=
  (⟨interval, now + interval⟩, if interval = 0 then locks else locks.sweep now)

/-- Whether a sweeper is at work. -/
def isRunning (s : Sweeper) : Bool := s.interval ≠ 0

/-- The number of sweeps that are due up to an instant. -/
def due (s : Sweeper) (now : Nat) : Nat :=
  if s.interval = 0 ∨ now < s.next then 0 else (now - s.next) / s.interval + 1

/-- How late a sweep can be made without putting off the sweeps that follow. -/
def tolerance : Nat := 5

/-- **The sweeper behind a sweep** that is made at an instant.  The next sweep is due an interval
after this one was, or an interval from now if this one is too late. -/
def rearm (s : Sweeper) (now : Nat) : Sweeper :=
  { s with next := (if s.next + tolerance < now then now else s.next) + s.interval }

/-- **One sweep at an instant**, if it is due by then. -/
def tick (s : Sweeper) (now : Nat) (locks : LockTable) : Sweeper × LockTable :=
  if s.interval = 0 ∨ now < s.next then (s, locks) else (s.rearm now, locks.sweep now)

/-- Makes the next `n` sweeps, each at an instant that may depend on when it is due. -/
def ticks (instant : Sweeper → Nat) : (n : Nat) → Sweeper → LockTable → Sweeper × LockTable
  | 0, s, locks => (s, locks)
  | n + 1, s, locks =>
    let (s', locks') := s.tick (instant s) locks
    ticks instant n s' locks'

/-- **Makes the sweeps that are due** up to an instant, each at the instant at which it is due. -/
def passTo (s : Sweeper) (now : Nat) (locks : LockTable) : Sweeper × LockTable :=
  ticks (fun s => min s.next now) (s.due now) s locks

/-- **Gets to work at an instant**: makes the sweeps that are due by then, all of them now. -/
def rouse (s : Sweeper) (now : Nat) (locks : LockTable) : Sweeper × LockTable :=
  ticks (fun _ => now) (s.due now) s locks

end Sweeper

/-- **Sweepers at work** on one table of locks, each under its number. -/
structure Roster where
  /-- The number of sweepers that have been started. -/
  started : Nat
  workers : List (Nat × Sweeper)

namespace Roster

/-- Nobody at work. -/
def empty : Roster := ⟨0, []⟩

instance : Inhabited Roster := ⟨empty⟩

/-- **Starts a sweeper** under the next number.  It does not get to work if it has no schedule or is
cancelled beforehand. -/
def start (r : Roster) (cancelled : Bool) (interval now : Nat) (locks : LockTable) :
    Roster × LockTable :=
  let number := r.started + 1
  if cancelled then (⟨number, r.workers⟩, locks)
  else
    let (sweeper, locks) := Sweeper.start interval now locks
    (⟨number, if sweeper.isRunning then (number, sweeper) :: r.workers else r.workers⟩, locks)

/-- Ends the work of a sweeper. -/
def stop (r : Roster) (number : Nat) : Roster :=
  { r with workers := r.workers.filter fun w => w.1 ≠ number }

/-- Whether a sweeper is at work. -/
def isAtWork (r : Roster) (number : Nat) : Bool := r.workers.any fun w => w.1 = number

/-- Each of a list of workers does some work. -/
def workAll (work : Sweeper → LockTable → Sweeper × LockTable) :
    List (Nat × Sweeper) → LockTable → List (Nat × Sweeper) × LockTable
  | [], locks => ([], locks)
  | w :: ws, locks =>
    let (sweeper, locks) := work w.2 locks
    let (ws, locks) := workAll work ws locks
    ((w.1, sweeper) :: ws, locks)

/-- **Makes the sweeps that are due** up to an instant, each at the instant at which it is due. -/
def passTo (r : Roster) (now : Nat) (locks : LockTable) : Roster × LockTable :=
  let (workers, locks) := workAll (fun s => s.passTo now) r.workers locks
  ({ r with workers }, locks)

/-- **Gets all sweepers to work** at an instant. -/
def rouse (r : Roster) (now : Nat) (locks : LockTable) : Roster × LockTable :=
  let (workers, locks) := workAll (fun s => s.rouse now) r.workers locks
  ({ r with workers }, locks)

end Roster

end CatalogChain
