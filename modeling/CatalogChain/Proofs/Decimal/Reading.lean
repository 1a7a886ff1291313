import CatalogChain.Decimal.Reader
import Mathlib.Tactic.SplitIfs

/-!
# Written amounts read back

The notation of an amount is a sign and digits with a point.  `readDigits_whole` and
`readDigits_fraction` say what the reader makes of a run of digits in front of the point and behind
it: it computes their number and counts the places, and neither bound is reached on the way if the
number itself is within bounds.  So an amount reads back as it is (`read?_text`), except that a zero
with a sign loses it (`Decimal.plain`).
-/

namespace CatalogChain

namespace Decimal

/-! ## Runs of digits -/

theorem le_ofDigitChars (cs : List Char) (m : Nat) : m ≤ Nat.ofDigitChars 10 cs m := by
  induction cs generalizing m with
  | nil => exact Nat.le_refl m
  | cons c cs ih =>
    have h := ih (10 * m + (c.toNat - '0'.toNat))
    rw [Nat.ofDigitChars_cons]
    omega

theorem readDigits_cons {c : Char} (hc : c.isDigit = true) (point any : Bool) (m s : Nat)
    (cs : List Char) :
    readDigits point any m s (c :: cs) =
      if bound ≤ 10 * m + (c.toNat - '0'.toNat) then
        if point then roundOff m s (c :: cs) else none
      else if point ∧ 28 ≤ (if point then s + 1 else s) then
        roundOff (10 * m + (c.toNat - '0'.toNat)) (if point then s + 1 else s) cs
      else readDigits point true (10 * m + (c.toNat - '0'.toNat)) (if point then s + 1 else s)
        cs := by
  have hpoint : c ≠ '.' := by
    rintro rfl
    simp [Char.isDigit] at hc
  have hscore : c ≠ '_' := by
    rintro rfl
    simp [Char.isDigit] at hc
  rw [readDigits.eq_4 point any m s c cs hpoint hscore, if_pos hc]

/-- **Digits in front of the point**, at least one of them. -/
theorem readDigits_whole {c : Char} {cs rest : List Char} {any : Bool} {m s : Nat}
    (hd : ∀ x ∈ c :: cs, x.isDigit = true) (hb : Nat.ofDigitChars 10 (c :: cs) m < bound) :
    readDigits false any m s (c :: cs ++ rest) =
      readDigits false true (Nat.ofDigitChars 10 (c :: cs) m) s rest := by
  -- what is read so far is no more than the whole number, so the bound is never reached
  induction cs generalizing c any m with
  | nil =>
    rw [Nat.ofDigitChars_cons, Nat.ofDigitChars_nil] at hb ⊢
    rw [List.singleton_append, readDigits_cons (hd c (by simp)), if_neg (Nat.not_le.mpr hb)]
    simp
  | cons x cs ih =>
    rw [Nat.ofDigitChars_cons] at hb ⊢
    have hle := le_ofDigitChars (x :: cs) (10 * m + (c.toNat - '0'.toNat))
    rw [List.cons_append, readDigits_cons (hd c (by simp)), if_neg (by omega)]
    rw [if_neg (by simp)]
    exact ih (fun y hy => hd y (List.mem_cons_of_mem c hy)) hb

/-- **Digits behind the point**, which fit into the scale. -/
theorem readDigits_fraction {cs : List Char} {m s : Nat} (hd : ∀ x ∈ cs, x.isDigit = true)
    (hb : Nat.ofDigitChars 10 cs m < bound) (hs : s + cs.length ≤ 28) :
    readDigits true true m s cs = some (Nat.ofDigitChars 10 cs m, s + cs.length) := by
  induction cs generalizing m s with
  | nil => rfl
  | cons c cs ih =>
    rw [Nat.ofDigitChars_cons] at hb ⊢
    have hle := le_ofDigitChars cs (10 * m + (c.toNat - '0'.toNat))
    have hlen : s + (c :: cs).length = s + 1 + cs.length := by
      rw [List.length_cons]
      omega
    rw [hlen] at hs ⊢
    rw [readDigits_cons (hd c (by simp)), if_neg (by omega)]
    by_cases hfull : 28 ≤ s + 1
    · -- the last place is taken, and nothing is left to be rounded off
      have hnil : cs = [] := List.eq_nil_of_length_eq_zero (by omega)
      rw [hnil, if_pos ⟨rfl, by simpa using hfull⟩]
      rfl
    · rw [if_neg (by simpa using hfull)]
      exact ih (fun y hy => hd y (List.mem_cons_of_mem c hy)) hb hs

/-! ## The digits of an amount -/

theorem isDigit_of_mem_padded {width n : Nat} {c : Char}
    (hc : c ∈ (Text.padded width n).toList) : c.isDigit = true := by
  rw [Text.padded, String.toList_ofList, List.mem_append] at hc
  rcases hc with hc | hc
  · rw [List.eq_of_mem_replicate hc]
    decide
  · exact Nat.isDigit_of_mem_toDigits (by decide) (by decide) hc

theorem length_padded {width n : Nat} (hw : 0 < width) (hn : n < tenTo width) :
    (Text.padded width n).toList.length = width := by
  have hlen : (Nat.toDigits 10 n).length ≤ width :=
    (Nat.length_toDigits_le_iff (by decide) hw).mpr hn
  rw [Text.padded, String.toList_ofList, List.length_append, List.length_replicate]
  omega

theorem ofDigitChars_padded {width n : Nat} (hw : 0 < width) (hn : n < tenTo width) (m : Nat) :
    Nat.ofDigitChars 10 (Text.padded width n).toList m = tenTo width * m + n := by
  have hzero : Nat.ofDigitChars 10 (Text.padded width n).toList 0 = n := by
    rw [Text.padded, String.toList_ofList, Nat.ofDigitChars_append,
      Nat.ofDigitChars_replicate_zero, Nat.mul_zero,
      Nat.ofDigitChars_toDigits (by decide) (by decide)]
  rw [Nat.ofDigitChars_eq_ofDigitChars_zero, hzero, length_padded hw hn]
  rfl

/-- A number in decimal notation begins with a digit. -/
theorem toDigits_eq_cons (n : Nat) : ∃ c cs, Nat.toDigits 10 n = c :: cs ∧
    (∀ x ∈ c :: cs, x.isDigit = true) ∧ Nat.ofDigitChars 10 (c :: cs) 0 = n := by
  obtain ⟨c, cs, h⟩ := List.exists_cons_of_ne_nil (Nat.toDigits_ne_nil (n := n) (b := 10))
  refine ⟨c, cs, h, fun x hx => ?_, ?_⟩
  · exact Nat.isDigit_of_mem_toDigits (by decide) (by decide) (h ▸ hx)
  · rw [← h]
    exact Nat.ofDigitChars_toDigits (by decide) (by decide)

/-- **A number with a point reads back** with as many places as stand behind the point. -/
theorem readDigits_pointed {n s : Nat} (hn : n < bound) (hs : s ≤ 28) :
    readDigits false false 0 0 (pointed n s) = some (n, s) := by
  unfold pointed
  split_ifs with h0
  · obtain ⟨c, cs, hcs, hd, hval⟩ := toDigits_eq_cons n
    have hwhole : readDigits false false 0 0 (c :: cs ++ []) =
        readDigits false true (Nat.ofDigitChars 10 (c :: cs) 0) 0 [] :=
      readDigits_whole hd (by rwa [hval])
    rw [List.append_nil, hval] at hwhole
    rw [hcs, hwhole, h0]
    rfl
  · have hpos : 0 < s := Nat.pos_of_ne_zero h0
    obtain ⟨c, cs, hcs, hd, hval⟩ := toDigits_eq_cons (n / tenTo s)
    have hquot : n / tenTo s < bound := Nat.lt_of_le_of_lt (Nat.div_le_self _ _) hn
    have hmod : n % tenTo s < tenTo s := Nat.mod_lt _ (tenTo_pos s)
    have hdigits := ofDigitChars_padded hpos hmod (n / tenTo s)
    rw [Nat.div_add_mod] at hdigits
    have hlen := length_padded hpos hmod
    rw [hcs, readDigits_whole hd (by rwa [hval]), hval]
    have hfraction := readDigits_fraction (s := 0) (fun _ hx => isDigit_of_mem_padded hx)
      (by rwa [hdigits]) (by omega)
    rw [hdigits, hlen, Nat.zero_add] at hfraction
    exact hfraction

theorem pointed_eq_cons (n s : Nat) : ∃ c cs, pointed n s = c :: cs ∧ c.isDigit = true := by
  unfold pointed
  split_ifs with h0
  · obtain ⟨c, cs, hcs, hd, -⟩ := toDigits_eq_cons n
    exact ⟨c, cs, hcs, hd c (by simp)⟩
  · obtain ⟨c, cs, hcs, hd, -⟩ := toDigits_eq_cons (n / tenTo s)
    exact ⟨c, _, by rw [hcs, List.cons_append], hd c (by simp)⟩

/-! ## Signs -/

/-- **An amount as it is read**: zero has no sign. -/
def plain (d : Decimal) : Decimal := { d with negative := d.negative && d.magnitude ≠ 0 }

theorem mantissa_plain (d : Decimal) : d.plain.mantissa = d.mantissa := by
  unfold mantissa plain
  by_cases hz : d.magnitude = 0 <;> simp [hz]

theorem sameValue_plain (d : Decimal) : d.plain.sameValue d = true := by
  rw [sameValue, mantissa_plain]
  exact decide_eq_true rfl

theorem ofDigits?_eq_plain (d : Decimal) :
    ofDigits? d.negative d.magnitude d.scale = some d.plain :=
  ofParts?_eq_some_iff.2 ⟨rfl, rfl, rfl⟩

theorem readPlain?_text (d : Decimal) : readPlain? d.text.toList = some d.plain := by
  have hread := readDigits_pointed d.magnitude_lt d.scale_le
  rw [text, String.toList_ofList, ← ofDigits?_eq_plain]
  cases hn : d.negative
  · -- the first digit is not taken for a sign
    obtain ⟨c, cs, hcs, hc⟩ := pointed_eq_cons d.magnitude d.scale
    have hminus : c ≠ '-' := by
      rintro rfl
      simp [Char.isDigit] at hc
    have hplus : c ≠ '+' := by
      rintro rfl
      simp [Char.isDigit] at hc
    rw [hcs] at hread
    simp [readPlain?, hcs, hminus, hplus, hread]
  · simp [readPlain?, hread]

/-- **Written amounts read back.** -/
theorem read?_text (d : Decimal) : read? d.text = some d.plain := by
  rw [read?, readPlain?_text]
  rfl

end Decimal

end CatalogChain
