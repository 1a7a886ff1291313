import CatalogChain.Fault
import CatalogChain.Feed
import CatalogChain.Sweeper
import CatalogChain.Text.Blank

/-!
# Settings

The settings of a deployment come from variables of the environment, each with a default.  Numbers
may have blanks around them and must fit their range; most must not be zero.  The first variable
in a fixed order that cannot be used is reported.
-/

namespace CatalogChain

/-- **The settings of writes**: how long a lock is held at most, how often and after which waits
it is tried, and how many items of a batch run at once.  Times are whole milliseconds: variables of
the environment give no others, and settings with parts of milliseconds are not covered. -/
structure WriteSettings where
  lockTtl : Nat := 10000
  attempts : Nat := 3
  backoff : Nat := 50
  concurrency : Nat := 16
deriving DecidableEq, Repr, Inhabited

/-- **The settings of a deployment.** -/
structure Settings where
  host : String := "127.0.0.1"
  port : Nat := 3000
  environment : String := "development"
  writes : WriteSettings := {}
  sweepInterval : Nat := Sweeper.defaultInterval
  feedCapacity : Nat := Feed.defaultCapacity
deriving DecidableEq, Repr, Inhabited

namespace Settings

/-- **Variables of the environment** with their values. -/
abbrev Variables := List (String × String)

/-- A number below a bound from a variable, or a default where that is not set. -/
def number (vars : Variables) (name : String) (bound default : Nat) : Except SettingFault Nat :=
  match Entries.get? name vars with
  | none => .ok default
  | some value =>
    match (Text.readNat? (Text.trim value.toList)).filter (· < bound) with
    | none => .error (.unreadable name)
    | some n => .ok n

/-- The same for a number that must not be zero. -/
def positive (vars : Variables) (name : String) (bound default : Nat) : Except SettingFault Nat :=
  match number vars name bound default with
  | .error fault => .error fault
  | .ok n => if n = 0 then .error (.notPositive name) else .ok n

/-- A text from a variable, or a default where that is not set. -/
def text (vars : Variables) (name default : String) : String :=
  (Entries.get? name vars).getD default

/-- **The settings that an environment gives.** -/
def ofVariables (vars : Variables) : Except SettingFault Settings := do
  let port ← number vars "PORT" (twoTo 16) 3000
  let lockTtl ← positive vars "LOCK_TTL_MS" (twoTo 64) 10000
  let sweepInterval ← positive vars "LOCK_SWEEP_INTERVAL_MS" (twoTo 64) Sweeper.defaultInterval
  let attempts ← positive vars "LOCK_RETRY_ATTEMPTS" (twoTo 32) 3
  let backoff ← number vars "LOCK_RETRY_BACKOFF_MS" (twoTo 64) 50
  let concurrency ← positive vars "BATCH_CONCURRENCY" (twoTo 64) 16
  let feedCapacity ← positive vars "PUBLISHER_CAPACITY" (twoTo 64) Feed.defaultCapacity
  return {
    host := text vars "HOST" "127.0.0.1"
    port
    environment := text vars "ENVIRONMENT" "development"
    writes := { lockTtl, attempts, backoff, concurrency }
    sweepInterval
    feedCapacity }

/-- Whether the deployment is a productive one. -/
def isProduction (s : Settings) : Bool := s.environment = "production"

/-- The address to listen on. -/
def address (s : Settings) : String := s.host ++ ":" ++ Text.ofNat s.port

end Settings

end CatalogChain
