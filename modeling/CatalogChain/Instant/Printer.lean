import CatalogChain.Instant.Basic
import CatalogChain.Text.Integer

/-!
# Writing instants

An instant is written as `2024-05-01T12:30:00Z`, with three, six or nine fraction digits behind the
seconds if it needs them, the fewest that are exact.  A year outside 0 to 9999 has a sign.
-/

namespace CatalogChain.Instant

/-- A year: four digits at least, with a sign outside 0 to 9999. -/
def yearText (year : Int) : String :=
  if 0 ≤ year ∧ year ≤ 9999 then Text.padded 4 year.toNat
  else (if year < 0 then "-" else "+") ++ Text.padded 4 year.natAbs

/-- The fraction of a second: as many groups of three digits as are exact. -/
def fractionText (nano : Nat) : String :=
  if nano = 0 then ""
  else if nano % 1000000 = 0 then "." ++ Text.padded 3 (nano / 1000000)
  else if nano % 1000 = 0 then "." ++ Text.padded 6 (nano / 1000)
  else "." ++ Text.padded 9 nano

/-- **The text of an instant.**  A leap second is written as second 60. -/
def text (t : Instant) : String :=
  let second := t.second + t.nano / nanosPerSecond
  yearText t.year ++ "-" ++ Text.padded 2 t.month ++ "-" ++ Text.padded 2 t.day ++ "T" ++
    Text.padded 2 t.hour ++ ":" ++ Text.padded 2 t.minute ++ ":" ++ Text.padded 2 second ++
    fractionText (t.nano % nanosPerSecond) ++ "Z"

end CatalogChain.Instant
