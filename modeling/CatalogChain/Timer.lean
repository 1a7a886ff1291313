/-!
# Timers

Instants and lengths of time are whole milliseconds, which is how exactly timers run: a timer that
is set for a part of a millisecond runs on to the end of it, and no such timers are set here.  A
timer runs out after the time for which it is set, but no timer runs for more than thirty years
(`Timer.longest`).
-/

namespace CatalogChain.Timer

/-- The longest time for which a timer runs: thirty years of 365 days. -/
def longest : Nat := 30 * 365 * 24 * 60 * 60 * 1000

/-- **The instant at which a timer runs out** that is set for some time. -/
def expiry (now time : Nat) : Nat := now + min time longest

theorem le_expiry (now time : Nat) : now ≤ expiry now time := Nat.le_add_right _ _

end CatalogChain.Timer
