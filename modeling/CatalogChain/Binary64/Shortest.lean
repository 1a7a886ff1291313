import CatalogChain.Binary64.Basic
import CatalogChain.Text.Integer

/-!
# The shortest decimal of a floating-point number

`Binary64.shortest` gives the fewest decimal digits that read back as the same number, and of
those the nearest, of two equally near ones the greater.  It tries one digit, two, and so on: on
the grid of decimals with that many digits only the two neighbours of the value can lie in the
interval of reals that round to it.

Two notations use these digits: `plainText` writes them positionally whatever their length, and
`jsonText` changes to an exponent below `1e-5` and from `1e16` on and always shows that the number
is not an integer.
-/

namespace CatalogChain.Binary64

/-- **A decimal** `digits · 10 ^ exponent`. -/
structure Shortest where
  digits : Nat
  exponent : Int
deriving DecidableEq, Repr

/-! ## The interval of a number -/

/-- The ends of the interval of reals that round to a number, and the number itself, in quarters of
its last place. -/
def quarters (x : Binary64) : Nat × Nat × Nat :=
  let low := if x.mantissa = leastFull ∧ x.exponent > -1074 then 1 else 2
  (4 * x.mantissa - low, 4 * x.mantissa, 4 * x.mantissa + 2)

/-- The place of the leading decimal digit of `num / den`, searched from `k` downwards. -/
def leadingPlace (num den : Nat) : (fuel : Nat) → (k : Int) → Int
  | 0, k => k
  | fuel + 1, k =>
    let reached := if k ≥ 0 then tenTo k.toNat * den ≤ num else den ≤ num * tenTo (-k).toNat
    if reached then k else leadingPlace num den fuel (k - 1)

/-- Tries grids of decimals from `10 ^ k` downwards; the first grid with a decimal in the interval
wins. -/
def searchGrid (x : Binary64) : (fuel : Nat) → (k : Int) → Shortest
  | 0, _ => ⟨x.mantissa, x.exponent⟩
  | fuel + 1, k =>
    let (low, value, high) := x.quarters
    let unit := x.exponent - 2
    -- everything in units of `2 ^ min unit 0 · 10 ^ min k 0`
    let up := twoTo unit.toNat * tenTo (-k).toNat
    let step := tenTo k.toNat * twoTo (-unit).toNat
    let below := value * up / step
    let inside := fun d =>
      if x.mantissa % 2 = 0 then low * up ≤ d * step ∧ d * step ≤ high * up
      else low * up < d * step ∧ d * step < high * up
    let nearBelow := 2 * (value * up - below * step) < step
    if inside below ∧ (nearBelow ∨ ¬ inside (below + 1)) ∧ below ≠ 0 then ⟨below, k⟩
    else if inside (below + 1) then ⟨below + 1, k⟩
    else searchGrid x fuel (k - 1)

/-- Moves trailing zeros of the digits into the exponent. -/
def Shortest.stripZeros : (fuel : Nat) → Shortest → Shortest
  | 0, s => s
  | fuel + 1, s =>
    if s.digits ≠ 0 ∧ s.digits % 10 = 0 then stripZeros fuel ⟨s.digits / 10, s.exponent + 1⟩ else s

/-- **The shortest decimal** that reads back as the number, without its sign. -/
def shortest (x : Binary64) : Shortest :=
  if x.mantissa = 0 then ⟨0, 0⟩
  else
    let (num, den) := x.ratio
    (searchGrid x 18 (leadingPlace num den 700 310)).stripZeros 20

/-! ## Notations -/

/-- The sign of a number as text. -/
def signText (x : Binary64) : String := if x.negative then "-" else ""

/-- Positional notation without an exponent; an integer has no fraction. -/
def plainText (x : Binary64) : String :=
  let s := x.shortest
  let digits := Nat.toDigits 10 s.digits
  let body :=
    if s.exponent ≥ 0 then digits ++ List.replicate s.exponent.toNat '0'
    else
      let places := (-s.exponent).toNat
      let digits := List.replicate (places + 1 - digits.length) '0' ++ digits
      digits.take (digits.length - places) ++ '.' :: digits.drop (digits.length - places)
  x.signText ++ String.ofList body

/-- Notation in JSON: positional with at least one fraction digit where the leading digit lies
between the fifth place after the point and the sixteenth before it, else with an exponent. -/
def jsonText (x : Binary64) : String :=
  let s := x.shortest
  let digits := Nat.toDigits 10 s.digits
  let point : Int := digits.length + s.exponent
  let body :=
    if x.mantissa = 0 then ['0', '.', '0']
    else if 0 ≤ s.exponent ∧ point ≤ 16 then
      digits ++ List.replicate s.exponent.toNat '0' ++ ['.', '0']
    else if 0 < point ∧ point ≤ 16 then
      digits.take point.toNat ++ '.' :: digits.drop point.toNat
    else if -5 < point ∧ point ≤ 0 then
      '0' :: '.' :: List.replicate (-point).toNat '0' ++ digits
    else
      let fraction := if digits.length = 1 then [] else '.' :: digits.drop 1
      digits.take 1 ++ fraction ++ 'e' :: (Text.ofInt (point - 1)).toList
  x.signText ++ String.ofList body

end CatalogChain.Binary64
