import CatalogChain.Power

/-!
# Floating-point numbers of 64 bits

A finite number of the format binary64 is a sign and a value `mantissa · 2 ^ exponent` with at
most 53 bits of mantissa and an exponent of at least -1074.  All arithmetic here is exact
arithmetic on naturals followed by one rounding to the nearest number, ties to the even mantissa
(`Binary64.round?`).
-/

namespace CatalogChain

/-- **A finite binary64 number**: `± mantissa · 2 ^ exponent`.  In canonical form the mantissa has
53 bits or the exponent is -1074. -/
structure Binary64 where
  negative : Bool
  mantissa : Nat
  exponent : Int
deriving DecidableEq, Inhabited

namespace Binary64

/-- The least mantissa of 53 bits. -/
def leastFull : Nat := twoTo 52

/-- Zero with a sign. -/
def zero (negative : Bool) : Binary64 := ⟨negative, 0, -1074⟩

/-- Whether the value is zero, whatever its sign. -/
def isZero (x : Binary64) : Bool := x.mantissa = 0

/-- The same value with a given sign. -/
def withSign (x : Binary64) (negative : Bool) : Binary64 := { x with negative }

/-- The quotient of two naturals rounded to the nearest integer, ties to even. -/
def roundQuotient (num den : Nat) : Nat :=
  let q := num / den
  let r := num % den
  if 2 * r < den then q else if den < 2 * r then q + 1 else q + q % 2

/-- `num / den · 2 ^ -e` as a fraction of naturals. -/
def scaled (num den : Nat) (e : Int) : Nat × Nat :=
  if e ≥ 0 then (num, den * twoTo e.toNat) else (num * twoTo (-e).toNat, den)

/-- **Rounding.**  The positive number nearest to `num / den`; nothing when it is too large. -/
def round? (num den : Nat) : Option Binary64 :=
  if num = 0 then some (zero false)
  else
    let guess : Int := (num.log2 : Int) - den.log2 - 53
    let (n, d) := scaled num den guess
    let e := max (-1074) (if n / d < 2 * leastFull then guess else guess + 1)
    let (n, d) := scaled num den e
    let m := roundQuotient n d
    let (m, e) := if m = 2 * leastFull then (leastFull, e + 1) else (m, e)
    if e > 971 then none else some ⟨false, m, e⟩

/-- The value without its sign as a fraction of naturals. -/
def ratio (x : Binary64) : Nat × Nat :=
  if x.exponent ≥ 0 then (x.mantissa * twoTo x.exponent.toNat, 1)
  else (x.mantissa, twoTo (-x.exponent).toNat)

/-- The number nearest to a power of ten. -/
def powerOfTen? (k : Nat) : Option Binary64 := round? (tenTo k) 1

/-- The rounded product of two numbers without their signs. -/
def mul? (x y : Binary64) : Option Binary64 :=
  round? (x.ratio.1 * y.ratio.1) (x.ratio.2 * y.ratio.2)

/-- The rounded quotient of two numbers without their signs. -/
def div? (x y : Binary64) : Option Binary64 :=
  round? (x.ratio.1 * y.ratio.2) (x.ratio.2 * y.ratio.1)

/-! ## From decimal parts -/

/-- Divides by `10 ^ (308 · steps + rest)`, one factor of `10 ^ 308` at a time and rounding after
each; a value that has become zero stays zero. -/
def divideByPower? : (steps rest : Nat) → Binary64 → Option Binary64
  | 0, rest, x => do x.div? (← powerOfTen? rest)
  | steps + 1, rest, x =>
    if x.isZero then some x
    else do divideByPower? steps rest (← x.div? (← powerOfTen? 308))

/-- **Reading decimal parts.**  `significand · 10 ^ exponent`, computed by rounding the
significand and then multiplying or dividing by rounded powers of ten.  The result can differ from
the nearest number in its last bit.  Nothing when it is too large. -/
def ofDecimal? (significand : Nat) (exponent : Int) : Option Binary64 := do
  let x ← round? significand 1
  if exponent ≥ 0 then
    if exponent ≤ 308 then x.mul? (← powerOfTen? exponent.toNat)
    else if x.isZero then some x else none
  else
    let k := (-exponent).toNat
    if k ≤ 308 then divideByPower? 0 k x else divideByPower? ((k - 1) / 308) ((k - 1) % 308 + 1) x

end Binary64

end CatalogChain
