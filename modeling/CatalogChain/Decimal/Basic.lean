import CatalogChain.Power
import CatalogChain.Text.Integer

/-!
# Decimal amounts

An amount is a sign and a natural number of at most 96 bits divided by a power of ten, its scale,
of at most 28 digits.  The scale is part of the amount: `1.0` and `1.00` are two amounts of one
value.  So is the sign of zero, which only rounding leaves behind.  Amounts are written with all
digits of their scale (`Decimal.text`), compared by value (`Decimal.sameValue`), and brought to
the least scale that keeps the value (`Decimal.normalize`).
-/

namespace CatalogChain

/-- The magnitudes of 96 bits lie below this number. -/
def Decimal.bound : Nat := twoTo 96

/-- **A decimal amount** `± magnitude · 10 ^ -scale`. -/
structure Decimal where
  negative : Bool
  magnitude : Nat
  scale : Nat
  magnitude_lt : magnitude < Decimal.bound
  scale_le : scale ≤ 28
deriving DecidableEq

namespace Decimal

/-- The amount zero without fraction digits. -/
def zero : Decimal := ⟨false, 0, 0, by decide, by decide⟩

instance : Inhabited Decimal := ⟨zero⟩

/-- The amount of a sign, a magnitude and a scale, if both are within their bounds. -/
def ofParts? (negative : Bool) (magnitude scale : Nat) : Option Decimal :=
  if h : magnitude < bound ∧ scale ≤ 28 then some ⟨negative, magnitude, scale, h.1, h.2⟩ else none

/-- The same for digits as they are read: zero has no sign. -/
def ofDigits? (negative : Bool) (magnitude scale : Nat) : Option Decimal :=
  ofParts? (negative && magnitude ≠ 0) magnitude scale

/-- The amount of an integer, if it is within the bounds. -/
def ofInt? (n : Int) : Option Decimal := ofDigits? (n < 0) n.natAbs 0

/-- The integer that the amount is `10 ^ scale` parts of. -/
def mantissa (d : Decimal) : Int := if d.negative then -(d.magnitude : Int) else d.magnitude

/-- Whether the amount is below zero. -/
def isNegative (d : Decimal) : Bool := d.mantissa < 0

/-- **Equality of values**: two amounts agree at a common scale. -/
def sameValue (a b : Decimal) : Bool :=
  a.mantissa * tenTo b.scale = b.mantissa * tenTo a.scale

theorem ofParts?_eq_some_iff {n : Bool} {m s : Nat} {d : Decimal} :
    ofParts? n m s = some d ↔ d.negative = n ∧ d.magnitude = m ∧ d.scale = s := by
  obtain ⟨n', m', s', hm, hs⟩ := d
  unfold ofParts?
  split
  · simp [eq_comm]
  · next h => simp; rintro rfl rfl rfl; exact h ⟨hm, hs⟩

theorem sameValue_refl (d : Decimal) : d.sameValue d = true := by simp [sameValue]

/-! ## The least scale -/

/-- Removes trailing zeros of a magnitude as long as there is scale to remove. -/
def strip : (magnitude scale : Nat) → Nat × Nat
  | m, 0 => (m, 0)
  | m, s + 1 => if m % 10 = 0 then strip (m / 10) s else (m, s + 1)

theorem strip_le (m s : Nat) : (strip m s).1 ≤ m := by
  fun_induction strip m s with
  | case1 => exact Nat.le_refl _
  | case2 m s h ih => omega
  | case3 => exact Nat.le_refl _

theorem scale_strip_le (m s : Nat) : (strip m s).2 ≤ s := by
  fun_induction strip m s with
  | case1 => exact Nat.le_refl _
  | case2 m s h ih => omega
  | case3 => exact Nat.le_refl _

/-- **The amount at the least scale that keeps its value.**  Zero loses its sign. -/
def normalize (d : Decimal) : Decimal where
  negative := d.negative && d.magnitude ≠ 0
  magnitude := (strip d.magnitude d.scale).1
  scale := (strip d.magnitude d.scale).2
  magnitude_lt := Nat.lt_of_le_of_lt (strip_le _ _) d.magnitude_lt
  scale_le := Nat.le_trans (scale_strip_le _ _) d.scale_le

theorem strip_value (m s : Nat) : (strip m s).1 * tenTo s = m * tenTo (strip m s).2 := by
  fun_induction strip m s with
  | case1 => rfl
  | case2 m s h ih =>
    have hm : m / 10 * 10 = m := by omega
    calc (strip (m / 10) s).1 * tenTo (s + 1)
        = (strip (m / 10) s).1 * tenTo s * 10 := by
          rw [tenTo_succ, Nat.mul_comm 10, Nat.mul_assoc]
      _ = m / 10 * tenTo (strip (m / 10) s).2 * 10 := by rw [ih]
      _ = m / 10 * 10 * tenTo (strip (m / 10) s).2 := by rw [Nat.mul_right_comm]
      _ = m * tenTo (strip (m / 10) s).2 := by rw [hm]
  | case3 => rfl

/-- Normalizing keeps the value. -/
theorem sameValue_normalize (d : Decimal) : d.normalize.sameValue d = true := by
  have h := strip_value d.magnitude d.scale
  have h' : ((strip d.magnitude d.scale).1 : Int) * tenTo d.scale =
      d.magnitude * tenTo (strip d.magnitude d.scale).2 := by
    exact_mod_cast h
  by_cases hz : d.magnitude = 0
  · have h0 := strip_le d.magnitude d.scale
    have h1 : (strip 0 d.scale).1 = 0 := by rw [hz] at h0; omega
    simp [sameValue, normalize, mantissa, hz, h1]
  · cases hn : d.negative
    · simp [sameValue, normalize, mantissa, hz, hn, h']
    · have hneg : -((strip d.magnitude d.scale).1 : Int) * tenTo d.scale =
          -(d.magnitude : Int) * tenTo (strip d.magnitude d.scale).2 := by
        rw [Int.neg_mul, Int.neg_mul, h']
      simpa [sameValue, normalize, mantissa, hz, hn] using hneg

/-! ## Notation -/

/-- The digits of a natural number with a point in front of the last `scale` digits, and at least
one digit in front of the point. -/
def pointed (n scale : Nat) : List Char :=
  if scale = 0 then Nat.toDigits 10 n
  else
    Nat.toDigits 10 (n / tenTo scale) ++ '.' :: (Text.padded scale (n % tenTo scale)).toList

/-- **The notation of an amount**, with as many fraction digits as its scale. -/
def text (d : Decimal) : String :=
  String.ofList ((if d.negative then ['-'] else []) ++ pointed d.magnitude d.scale)

end Decimal

end CatalogChain
