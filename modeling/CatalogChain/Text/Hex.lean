import CatalogChain.Power

/-!
# Hexadecimal digits

Digits are written in lower case and read in either case.
-/

namespace CatalogChain.Text

/-- The lower-case digit for a value below sixteen. -/
def hexDigit (n : Nat) : Char :=
  if n < 10 then Char.ofNat ('0'.toNat + n) else Char.ofNat ('a'.toNat + (n - 10))

/-- The value of a hexadecimal digit in either case. -/
def hexValue? (c : Char) : Option Nat :=
  if '0' ≤ c ∧ c ≤ '9' then some (c.toNat - '0'.toNat)
  else if 'a' ≤ c ∧ c ≤ 'f' then some (c.toNat - 'a'.toNat + 10)
  else if 'A' ≤ c ∧ c ≤ 'F' then some (c.toNat - 'A'.toNat + 10)
  else none

/-- The last `width` hexadecimal digits of a number, most significant first. -/
def hexDigits : (width n : Nat) → List Char
  | 0, _ => []
  | width + 1, n => hexDigits width (n / 16) ++ [hexDigit (n % 16)]

/-- The value of a run of hexadecimal digits. -/
def readHex? (cs : List Char) : Option Nat :=
  cs.foldl (fun value? c => do return 16 * (← value?) + (← hexValue? c)) (some 0)

theorem hexValue?_hexDigit {n : Nat} (h : n < 16) : hexValue? (hexDigit n) = some n := by
  have all : ∀ m < 16, hexValue? (hexDigit m) = some m := by decide
  exact all n h

@[simp] theorem length_hexDigits (width n : Nat) : (hexDigits width n).length = width := by
  induction width generalizing n with
  | zero => rfl
  | succ width ih => simp [hexDigits, ih]

theorem readHex?_append_singleton (cs : List Char) (c : Char) :
    readHex? (cs ++ [c]) = (readHex? cs).bind fun n => (hexValue? c).map (16 * n + ·) := by
  simp only [readHex?, List.foldl_append, List.foldl_cons, List.foldl_nil]
  cases List.foldl _ (some 0) cs <;> cases hexValue? c <;> rfl

/-- Reading what `hexDigits` writes gives the number back, as far as the digits reach. -/
theorem readHex?_hexDigits (width n : Nat) :
    readHex? (hexDigits width n) = some (n % twoTo (4 * width)) := by
  induction width generalizing n with
  | zero => simp [hexDigits, readHex?, Nat.mod_one]
  | succ width ih =>
    rw [hexDigits, readHex?_append_singleton, ih, hexValue?_hexDigit (Nat.mod_lt _ (by decide))]
    have h16 : twoTo (4 * (width + 1)) = 16 * twoTo (4 * width) := by
      rw [Nat.mul_succ, twoTo_succ, twoTo_succ, twoTo_succ, twoTo_succ]; omega
    simp only [Option.bind_some, Option.map_some, Option.some.injEq]
    rw [h16, Nat.mod_mul, Nat.add_comm]

end CatalogChain.Text
