import CatalogChain.Service.Basic
import CatalogChain.Timer

/-!
# Deployments

A deployment is a service under a clock, with the sweepers that work on its locks.  Time passes
only between the steps of the service and from one timer to the next, so the sweeps that are due
are made meanwhile, each at its own instant (`Deployment.passTo`).
-/

namespace CatalogChain

/-- **A deployment**: a service, the instant, the sweepers at work, and the number of the one that
can be stopped. -/
structure Deployment where
  service : Service
  now : Nat
  roster : Roster
  sweeper : Option Nat

namespace Deployment

/-- A deployment of a new service at the start of the clock. -/
def fresh (settings : WriteSettings) (feed : Feed) : Deployment :=
  ⟨.fresh settings feed, 0, .empty, none⟩

/-- **A new deployment** with given settings, unless no feed can have their capacity. -/
def ofSettings? (settings : Settings) : Option Deployment :=
  (Feed.ofCapacity? settings.feedCapacity).map (fresh settings.writes)

/-- **Lets time pass** up to an instant. -/
def passTo (d : Deployment) (now : Nat) : Deployment :=
  let (roster, locks) := d.roster.passTo now d.service.locks
  { d with service := { d.service with locks }, now, roster }

/-- Lets some time pass. -/
def sleep (d : Deployment) (time : Nat) : Deployment := d.passTo (Timer.expiry d.now time)

/-- Starts a sweeper.  One that was started before goes on, and can no longer be stopped. -/
def startSweeper (d : Deployment) (interval : Nat) : Deployment :=
  let (roster, locks) := d.roster.start false interval d.now d.service.locks
  { d with
    service := { d.service with locks }
    roster
    sweeper := some roster.started }

/-- Stops the sweeper that was started last. -/
def stopSweeper (d : Deployment) : Deployment :=
  match d.sweeper with
  | some number => { d with roster := d.roster.stop number, sweeper := none }
  | none => d

end Deployment

end CatalogChain
