/-!
# Powers of two and ten

A width in bits or in decimal digits becomes a bound through a power: `twoTo n` is the number of
values of `n` bits, `tenTo n` that of `n` decimal digits.
-/

namespace CatalogChain

/-- The `n`-th power of two. -/
def twoTo (n : Nat) : Nat := Nat.pow 2 n

/-- The `n`-th power of ten. -/
def tenTo (n : Nat) : Nat := Nat.pow 10 n

@[simp] theorem twoTo_zero : twoTo 0 = 1 := rfl

theorem twoTo_succ (n : Nat) : twoTo (n + 1) = 2 * twoTo n := by
  simp only [twoTo, Nat.pow_eq, Nat.pow_succ, Nat.mul_comm]

@[simp] theorem tenTo_zero : tenTo 0 = 1 := rfl

theorem tenTo_succ (n : Nat) : tenTo (n + 1) = 10 * tenTo n := by
  simp only [tenTo, Nat.pow_eq, Nat.pow_succ, Nat.mul_comm]

theorem tenTo_pos (n : Nat) : 0 < tenTo n := by
  induction n with
  | zero => decide
  | succ n ih => rw [tenTo_succ]; omega

end CatalogChain
