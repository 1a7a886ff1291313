import CatalogChain.Proofs.Decimal.Reading
import Mathlib.Tactic.Ring

/-!
# One normal form for each value

Two amounts are of one value exactly if `Decimal.normalize` makes them equal, and exactly if their
normal forms are written alike (`sameValue_iff_text_normalize`).  What is left after stripping has
no trailing zero behind its point (`Stripped`), and of all numbers with places that are of one value
only one is like that (`eq_of_stripped`).  Equality of values is then an equivalence.
-/

namespace CatalogChain.Decimal

/-! ## Stripped numbers -/

/-- **Without trailing zeros** behind the point. -/
def Stripped (m s : Nat) : Prop := s = 0 ∨ m % 10 ≠ 0

theorem stripped_strip (m s : Nat) : Stripped (strip m s).1 (strip m s).2 := by
  fun_induction strip m s with
  | case1 m => exact .inl rfl
  | case2 m s h ih => exact ih
  | case3 m s h => exact .inr h

/-- A stripped number that has places is not the value of a whole one. -/
theorem Stripped.ne_whole {m n t : Nat} (hn : Stripped n (t + 1)) : m * tenTo (t + 1) ≠ n := by
  rintro rfl
  -- the last of the places would be a zero
  have hten : m * tenTo (t + 1) = 10 * (m * tenTo t) := by
    rw [tenTo_succ]
    ring
  rw [hten] at hn
  rcases hn with h0 | h0 <;> omega

/-- **Stripped numbers of one value are equal.** -/
theorem eq_of_stripped {m n s t : Nat} (hm : Stripped m s) (hn : Stripped n t)
    (h : m * tenTo t = n * tenTo s) : m = n ∧ s = t := by
  -- one place after the other is taken from both, until one of them has none left
  induction s generalizing t with
  | zero =>
    rw [tenTo_zero, Nat.mul_one] at h
    cases t with
    | zero => simpa using h
    | succ t => exact absurd h hn.ne_whole
  | succ s ih =>
    cases t with
    | zero =>
      rw [tenTo_zero, Nat.mul_one] at h
      exact absurd h.symm hm.ne_whole
    | succ t =>
      have hm' : Stripped m s := .inr (hm.resolve_left (Nat.succ_ne_zero s))
      have hn' : Stripped n t := .inr (hn.resolve_left (Nat.succ_ne_zero t))
      have hcancel : m * tenTo t = n * tenTo s := by
        rw [tenTo_succ, tenTo_succ] at h
        refine Nat.eq_of_mul_eq_mul_left (show 0 < 10 by omega) ?_
        calc 10 * (m * tenTo t) = m * (10 * tenTo t) := by ring
          _ = n * (10 * tenTo s) := h
          _ = 10 * (n * tenTo s) := by ring
      obtain ⟨hmn, hst⟩ := ih hm' hn' hcancel
      exact ⟨hmn, by omega⟩

theorem strip_eq_zero_iff {m s : Nat} : (strip m s).1 = 0 ↔ m = 0 := by
  constructor
  · intro h
    have hv := strip_value m s
    rw [h, Nat.zero_mul] at hv
    have hpos := tenTo_pos (strip m s).2
    exact (Nat.mul_eq_zero.mp hv.symm).resolve_right (by omega)
  · rintro rfl
    exact Nat.le_zero.mp (strip_le 0 s)

/-! ## Values -/

theorem sameValue_iff {a b : Decimal} :
    a.sameValue b = true ↔ a.mantissa * tenTo b.scale = b.mantissa * tenTo a.scale := by
  rw [sameValue, decide_eq_true_iff]

theorem sameValue_comm (a b : Decimal) : a.sameValue b = b.sameValue a := by
  rw [Bool.eq_iff_iff, sameValue_iff, sameValue_iff]
  exact eq_comm

theorem sameValue_trans {a b c : Decimal} (hab : a.sameValue b = true)
    (hbc : b.sameValue c = true) : a.sameValue c = true := by
  rw [sameValue_iff] at *
  have hpos : (tenTo b.scale : Int) ≠ 0 := by exact_mod_cast (tenTo_pos b.scale).ne'
  refine Int.eq_of_mul_eq_mul_right hpos ?_
  calc a.mantissa * tenTo c.scale * tenTo b.scale
      = a.mantissa * tenTo b.scale * tenTo c.scale := by ring
    _ = b.mantissa * tenTo c.scale * tenTo a.scale := by rw [hab]; ring
    _ = c.mantissa * tenTo a.scale * tenTo b.scale := by rw [hbc]; ring

theorem natAbs_mantissa (d : Decimal) : d.mantissa.natAbs = d.magnitude := by
  unfold mantissa
  split_ifs <;> omega

theorem isNegative_iff {d : Decimal} :
    d.isNegative = true ↔ d.negative = true ∧ d.magnitude ≠ 0 := by
  unfold isNegative mantissa
  cases d.negative
  · simp
  · simp
    omega

theorem magnitude_of_sameValue {a b : Decimal} (h : a.sameValue b = true) :
    a.magnitude * tenTo b.scale = b.magnitude * tenTo a.scale := by
  have habs := congrArg Int.natAbs (sameValue_iff.mp h)
  rwa [Int.natAbs_mul, Int.natAbs_mul, natAbs_mantissa, natAbs_mantissa, Int.natAbs_natCast,
    Int.natAbs_natCast] at habs

theorem isNegative_of_sameValue {a b : Decimal} (h : a.sameValue b = true) :
    a.isNegative = b.isNegative := by
  have hsign := congrArg Int.sign (sameValue_iff.mp h)
  have hpos : ∀ n : Nat, (tenTo n : Int).sign = 1 := fun n =>
    Int.sign_eq_one_of_pos (by exact_mod_cast tenTo_pos n)
  rw [Int.sign_mul, Int.sign_mul, hpos, hpos, Int.mul_one, Int.mul_one] at hsign
  rw [isNegative, isNegative, decide_eq_decide, ← Int.sign_eq_neg_one_iff_neg, hsign,
    Int.sign_eq_neg_one_iff_neg]

/-! ## The normal form -/

theorem ext_iff {a b : Decimal} :
    a = b ↔ a.negative = b.negative ∧ a.magnitude = b.magnitude ∧ a.scale = b.scale := by
  cases a
  cases b
  rw [Decimal.mk.injEq]

theorem negative_normalize (d : Decimal) : d.normalize.negative = d.isNegative := by
  rw [Bool.eq_iff_iff, isNegative_iff]
  simp [normalize]

theorem stripped_normalize (d : Decimal) : Stripped d.normalize.magnitude d.normalize.scale :=
  stripped_strip d.magnitude d.scale

theorem plain_normalize (d : Decimal) : d.normalize.plain = d.normalize := by
  rw [ext_iff]
  refine ⟨?_, rfl, rfl⟩
  simp [plain, normalize, strip_eq_zero_iff]

/-- **Amounts are of one value exactly if they have one normal form.** -/
theorem sameValue_iff_normalize {a b : Decimal} :
    a.sameValue b = true ↔ a.normalize = b.normalize := by
  constructor
  · intro h
    have hnormal : a.normalize.sameValue b.normalize = true :=
      sameValue_trans (sameValue_trans (sameValue_normalize a) h)
        (sameValue_comm b b.normalize ▸ sameValue_normalize b)
    obtain ⟨hm, hs⟩ := eq_of_stripped (stripped_normalize a) (stripped_normalize b)
      (magnitude_of_sameValue hnormal)
    have hn : a.normalize.negative = b.normalize.negative := by
      rw [negative_normalize, negative_normalize, isNegative_of_sameValue h]
    exact ext_iff.mpr ⟨hn, hm, hs⟩
  · intro h
    have hb := sameValue_normalize b
    rw [← h] at hb
    exact sameValue_trans (sameValue_comm a a.normalize ▸ sameValue_normalize a) hb

/-- **Amounts are of one value exactly if their normal forms are written alike.** -/
theorem sameValue_iff_text_normalize {a b : Decimal} :
    a.sameValue b = true ↔ a.normalize.text = b.normalize.text := by
  rw [sameValue_iff_normalize]
  constructor
  · intro h
    rw [h]
  · intro h
    have hread := read?_text a.normalize
    rw [h, read?_text, plain_normalize, plain_normalize] at hread
    exact (Option.some.inj hread).symm

end CatalogChain.Decimal
