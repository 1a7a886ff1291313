import CatalogChain.Instant.Printer
import CatalogChain.Instant.Reader
import CatalogChain.Proofs.Decimal.Reading

/-!
# Written instants read back

Every part of the text of an instant is a number that is padded to a fixed width, with a mark behind
it.  The reader takes such a number as it is, since no blank stands in front of it and no digit
behind it is left for it to take (`readNumber?_padded`).  Years beyond four digits have a sign and
end at the first hyphen; the fraction has the fewest groups of three digits that are exact, which
the reader fills up again (`readFraction?_fractionText`); second 60 is the leap second it was.  So
an instant reads back to the nanosecond (`read?_text`).
-/

namespace CatalogChain.Instant

open Text

/-! ## Numbers and marks -/

theorem isBlank_of_isDigit {c : Char} (h : c.isDigit = true) : isBlank c = false := by
  have hlow : 48 ≤ c.toNat ∧ c.toNat ≤ 57 := by
    simp only [Char.isDigit, Bool.and_eq_true, decide_eq_true_eq] at h
    exact ⟨UInt32.le_iff_toNat_le.mp h.1, UInt32.le_iff_toNat_le.mp h.2⟩
  simp only [isBlank, blankRanges, List.any_eq_false, Bool.and_eq_true, decide_eq_true_eq]
  intro range hrange
  simp only [List.mem_cons, List.not_mem_nil, or_false] at hrange
  rcases hrange with rfl | rfl | rfl | rfl | rfl | rfl | rfl | rfl | rfl | rfl <;>
    simp only <;> omega

theorem trimStart_cons {c : Char} (h : isBlank c = false) (cs : List Char) :
    trimStart (c :: cs) = c :: cs := by
  rw [trimStart, List.dropWhile_cons, h]
  rfl

/-- A run of digits is taken whole if no more fit or no digit follows. -/
theorem takeDigits_append {limit : Nat} {ds cs : List Char} (hd : ∀ c ∈ ds, c.isDigit = true)
    (hlen : ds.length ≤ limit)
    (hstop : ds.length = limit ∨ ∀ c ∈ cs.head?, c.isDigit = false) :
    takeDigits limit (ds ++ cs) = (ds, cs) := by
  induction ds generalizing limit with
  | nil =>
    cases limit with
    | zero => cases cs <;> rfl
    | succ limit =>
      cases cs with
      | nil => rfl
      | cons c cs =>
        have hc : c.isDigit = false := hstop.resolve_left (by simp) c rfl
        simp [takeDigits, hc]
  | cons d ds ih =>
    cases limit with
    | zero => cases hlen
    | succ limit =>
      have hdigit := hd d List.mem_cons_self
      have ih : takeDigits limit (ds ++ cs) = (ds, cs) :=
        ih (fun c hc => hd c (List.mem_cons_of_mem d hc)) (Nat.le_of_succ_le_succ hlen)
          (hstop.imp_left Nat.succ.inj)
      simp only [List.cons_append, takeDigits, hdigit, if_true, ih]

theorem padded_eq_cons {width n : Nat} (hw : 0 < width) (hn : n < tenTo width) :
    ∃ c cs, (padded width n).toList = c :: cs ∧ c.isDigit = true := by
  have hne : (padded width n).toList ≠ [] := by
    rw [← List.length_pos_iff, Decimal.length_padded hw hn]
    exact hw
  obtain ⟨c, cs, h⟩ := List.exists_cons_of_ne_nil hne
  exact ⟨c, cs, h, Decimal.isDigit_of_mem_padded (h ▸ List.mem_cons_self)⟩

theorem ofDigitChars_padded_zero (width n : Nat) :
    Nat.ofDigitChars 10 (padded width n).toList 0 = n := by
  rw [padded, String.toList_ofList, Nat.ofDigitChars_append, Nat.ofDigitChars_replicate_zero,
    Nat.mul_zero, Nat.ofDigitChars_toDigits (by decide) (by decide)]

/-- **A number reads back** from as many digits as may be read. -/
theorem readNumber?_padded {width n : Nat} (hw : 0 < width) (hn : n < tenTo width)
    (cs : List Char) : readNumber? width ((padded width n).toList ++ cs) = some (n, cs) := by
  have hlen := Decimal.length_padded hw hn
  have htake : takeDigits width ((padded width n).toList ++ cs) = ((padded width n).toList, cs) :=
    takeDigits_append (fun c hc => Decimal.isDigit_of_mem_padded hc) (Nat.le_of_eq hlen)
      (.inl hlen)
  obtain ⟨d, ds, hds, hd⟩ := padded_eq_cons hw hn
  have htrim : trimStart ((padded width n).toList ++ cs) = (padded width n).toList ++ cs := by
    rw [hds, List.cons_append, trimStart_cons (isBlank_of_isDigit hd)]
  have hne : (padded width n).toList ≠ [] := by
    rw [hds]
    exact List.cons_ne_nil d ds
  simp only [readNumber?, htrim, htake, if_neg hne, ofDigitChars_padded_zero]

theorem readMark?_cons {mark : Char} (h : isBlank mark = false) (cs : List Char) :
    readMark? mark (mark :: cs) = some cs := by
  rw [readMark?, trimStart_cons h]
  exact if_pos rfl

/-! ## The year -/

theorem takeWhile_padded {width n : Nat} {c : Char} (hc : c.isDigit = false) (cs : List Char) :
    ((padded width n).toList ++ c :: cs).takeWhile Char.isDigit = (padded width n).toList := by
  rw [List.takeWhile_append_of_pos fun c hc => Decimal.isDigit_of_mem_padded hc,
    List.takeWhile_cons, hc]
  simp

theorem dropWhile_padded {width n : Nat} {c : Char} (hc : c.isDigit = false) (cs : List Char) :
    ((padded width n).toList ++ c :: cs).dropWhile Char.isDigit = c :: cs := by
  rw [List.dropWhile_append_of_pos fun c hc => Decimal.isDigit_of_mem_padded hc,
    List.dropWhile_cons, hc]
  simp

theorem padded_ne_nil (width n : Nat) : (padded width n).toList ≠ [] := by
  rw [padded, String.toList_ofList]
  simp [Nat.toDigits_ne_nil]

/-- **A year reads back** in front of a hyphen. -/
theorem readYear?_yearText (year : Int) (cs : List Char) :
    readYear? ((yearText year).toList ++ '-' :: cs) = some (year, '-' :: cs) := by
  have hhyphen : '-'.isDigit = false := by decide
  unfold yearText
  split_ifs with hshort hneg
  · have hlt : year.toNat < tenTo 4 := by
      have hten : tenTo 4 = 10000 := rfl
      omega
    obtain ⟨d, ds, hds, hd⟩ := padded_eq_cons (by decide : 0 < 4) hlt
    have hnumber := readNumber?_padded (by decide : 0 < 4) hlt ('-' :: cs)
    have hyear : ((year.toNat : Nat) : Int) = year := by omega
    have hminus : d ≠ '-' := by
      rintro rfl
      cases hd
    have hplus : d ≠ '+' := by
      rintro rfl
      cases hd
    rw [hds, List.cons_append] at hnumber ⊢
    simp [readYear?, trimStart_cons (isBlank_of_isDigit hd), hminus, hplus, hnumber, hyear]
  · have hyear : -((year.natAbs : Nat) : Int) = year := by omega
    rw [String.toList_append]
    simp only [readYear?]
    have htrim : trimStart ("-".toList ++ (padded 4 year.natAbs).toList ++ '-' :: cs) =
        '-' :: ((padded 4 year.natAbs).toList ++ '-' :: cs) := trimStart_cons (by decide) _
    simp only [htrim, takeWhile_padded hhyphen, dropWhile_padded hhyphen,
      if_neg (padded_ne_nil _ _), ofDigitChars_padded_zero]
    rw [Int.neg_one_mul, hyear]
  · have hyear : ((year.natAbs : Nat) : Int) = year := by omega
    rw [String.toList_append]
    simp only [readYear?]
    have htrim : trimStart ("+".toList ++ (padded 4 year.natAbs).toList ++ '-' :: cs) =
        '+' :: ((padded 4 year.natAbs).toList ++ '-' :: cs) := trimStart_cons (by decide) _
    simp only [htrim, takeWhile_padded hhyphen, dropWhile_padded hhyphen,
      if_neg (padded_ne_nil _ _), ofDigitChars_padded_zero]
    rw [Int.one_mul, hyear]

/-! ## The fraction -/

/-- A fraction of some digits counts as many parts of a second. -/
theorem readFraction?_padded {width n : Nat} (hw : 0 < width) (hn : n < tenTo width)
    (hnine : width ≤ 9) {c : Char} (hc : c.isDigit = false) (cs : List Char) :
    readFraction? ('.' :: ((padded width n).toList ++ c :: cs)) =
      some (n * tenTo (9 - width), c :: cs) := by
  have hlen := Decimal.length_padded hw hn
  have htake : takeDigits 9 ((padded width n).toList ++ c :: cs) =
      ((padded width n).toList, c :: cs) := by
    refine takeDigits_append (fun d hd => Decimal.isDigit_of_mem_padded hd) ?_
      (.inr fun d hd => ?_)
    · rwa [hlen]
    · cases hd
      exact hc
  simp only [readFraction?, htake, if_neg (padded_ne_nil _ _), ofDigitChars_padded_zero, hlen,
    List.dropWhile_cons, hc, Bool.false_eq_true, if_false]

/-- **A fraction reads back** in front of the offset. -/
theorem readFraction?_fractionText {nano : Nat} (h : nano < nanosPerSecond) (cs : List Char) :
    readFraction? ((fractionText nano).toList ++ 'Z' :: cs) = some (nano, 'Z' :: cs) := by
  have hz : 'Z'.isDigit = false := by decide
  have hpoint : ".".toList = ['.'] := rfl
  unfold nanosPerSecond at h
  unfold fractionText
  split_ifs with h0 h3 h6
  · rw [h0]
    rfl
  · have hlt : nano / 1000000 < tenTo 3 := by
      have hten : tenTo 3 = 1000 := rfl
      omega
    have hval : nano / 1000000 * tenTo (9 - 3) = nano :=
      Nat.div_mul_cancel (Nat.dvd_of_mod_eq_zero h3)
    have hread := readFraction?_padded (by decide) hlt (by decide) hz cs
    rw [hval] at hread
    rw [String.toList_append, hpoint, List.append_assoc, List.singleton_append, hread]
  · have hlt : nano / 1000 < tenTo 6 := by
      have hten : tenTo 6 = 1000000 := rfl
      omega
    have hval : nano / 1000 * tenTo (9 - 6) = nano :=
      Nat.div_mul_cancel (Nat.dvd_of_mod_eq_zero h6)
    have hread := readFraction?_padded (by decide) hlt (by decide) hz cs
    rw [hval] at hread
    rw [String.toList_append, hpoint, List.append_assoc, List.singleton_append, hread]
  · have hlt : nano < tenTo 9 := by
      have hten : tenTo 9 = 1000000000 := rfl
      omega
    have hread := readFraction?_padded (by decide) hlt (by decide) hz cs
    rw [Nat.sub_self, tenTo_zero, Nat.mul_one] at hread
    rw [String.toList_append, hpoint, List.append_assoc, List.singleton_append, hread]

/-! ## The instant -/

theorem toList_text (t : Instant) :
    t.text.toList = (yearText t.year).toList ++ '-' :: ((padded 2 t.month).toList ++
      '-' :: ((padded 2 t.day).toList ++ 'T' :: ((padded 2 t.hour).toList ++
      ':' :: ((padded 2 t.minute).toList ++
      ':' :: ((padded 2 (t.second + t.nano / nanosPerSecond)).toList ++
      ((fractionText (t.nano % nanosPerSecond)).toList ++ ['Z'])))))) := by
  simp [text]

/-- A second with its fraction, as it is written and as it is meant. -/
theorem ofLocal?_written (t : Instant) :
    (if t.second + t.nano / nanosPerSecond = 60 then
      ofLocal? 0 t.year t.month t.day t.hour t.minute 59 (t.nano % nanosPerSecond + nanosPerSecond)
    else
      ofLocal? 0 t.year t.month t.day t.hour t.minute (t.second + t.nano / nanosPerSecond)
        (t.nano % nanosPerSecond)) = some t := by
  have hsecond := t.validTime.second_lt
  have hself := ofLocal?_zero t
  unfold nanosPerSecond at *
  rcases t.validTime.nano_lt with hnano | ⟨hlast, hnano⟩
  · -- an ordinary second is not carried over
    unfold nanosPerSecond at hnano
    rw [if_neg (by omega), Nat.div_eq_of_lt hnano, Nat.mod_eq_of_lt hnano, Nat.add_zero, hself]
  · unfold nanosPerSecond at hnano
    by_cases hleap : t.nano < 1000000000
    · rw [if_neg (by omega), Nat.div_eq_of_lt hleap, Nat.mod_eq_of_lt hleap, Nat.add_zero, hself]
    · have hsum : t.nano % 1000000000 + 1000000000 = t.nano := by omega
      rw [if_pos (by omega), hsum, ← hlast, hself]

theorem day_lt (t : Instant) : t.day < tenTo 2 := by
  have hle := t.validDate.day_le
  have hten : tenTo 2 = 100 := rfl
  unfold daysIn at hle
  split_ifs at hle <;> omega

theorem writtenSecond_lt (t : Instant) : t.second + t.nano / nanosPerSecond < tenTo 2 := by
  have hsecond := t.validTime.second_lt
  have hten : tenTo 2 = 100 := rfl
  have hnano : t.nano / nanosPerSecond < 2 := by
    have h := t.validTime.nano_lt
    unfold nanosPerSecond at *
    omega
  omega

/-- **An instant reads back** to the nanosecond. -/
theorem read?_text (t : Instant) : read? t.text = some t := by
  have hmonth : t.month < tenTo 2 := Nat.lt_of_le_of_lt t.validDate.month_le (by decide)
  have hhour : t.hour < tenTo 2 := Nat.lt_trans t.validTime.hour_lt (by decide)
  have hminute : t.minute < tenTo 2 := Nat.lt_trans t.validTime.minute_lt (by decide)
  have hnano : t.nano % nanosPerSecond < nanosPerSecond := Nat.mod_lt _ (by decide)
  have hvalid : ¬(trimStart [] ≠ [] ∨ 24 ≤ t.hour ∨ 60 ≤ t.minute) := by
    simp [trimStart, t.validTime.hour_lt, t.validTime.minute_lt]
  have htwo : 0 < 2 := by decide
  have hhyphen : isBlank '-' = false := by decide
  have hcolon : isBlank ':' = false := by decide
  have hseparator : ∀ cs, readSeparator? ('T' :: cs) = some cs := fun cs => by
    simp [readSeparator?]
  have hoffset : readOffset? ['Z'] = some (0, []) := by decide
  unfold read?
  rw [toList_text]
  refine Option.bind_eq_some_iff.mpr ⟨_, readYear?_yearText .., ?_⟩
  refine Option.bind_eq_some_iff.mpr ⟨_, readMark?_cons hhyphen _, ?_⟩
  refine Option.bind_eq_some_iff.mpr ⟨_, readNumber?_padded htwo hmonth _, ?_⟩
  refine Option.bind_eq_some_iff.mpr ⟨_, readMark?_cons hhyphen _, ?_⟩
  refine Option.bind_eq_some_iff.mpr ⟨_, readNumber?_padded htwo t.day_lt _, ?_⟩
  refine Option.bind_eq_some_iff.mpr ⟨_, hseparator _, ?_⟩
  refine Option.bind_eq_some_iff.mpr ⟨_, readNumber?_padded htwo hhour _, ?_⟩
  refine Option.bind_eq_some_iff.mpr ⟨_, readMark?_cons hcolon _, ?_⟩
  refine Option.bind_eq_some_iff.mpr ⟨_, readNumber?_padded htwo hminute _, ?_⟩
  refine Option.bind_eq_some_iff.mpr ⟨_, readMark?_cons hcolon _, ?_⟩
  refine Option.bind_eq_some_iff.mpr ⟨_, readNumber?_padded htwo t.writtenSecond_lt _, ?_⟩
  refine Option.bind_eq_some_iff.mpr ⟨_, readFraction?_fractionText hnano _, ?_⟩
  refine Option.bind_eq_some_iff.mpr ⟨_, hoffset, ?_⟩
  exact (if_neg hvalid).trans (ofLocal?_written t)

end CatalogChain.Instant
