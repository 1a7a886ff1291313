import CatalogChain.Json.Reader
import CatalogChain.Json.Writer
import CatalogChain.Proofs.Decimal.Reading
import Mathlib.Data.List.Basic

/-!
# Written strings and integers read back

A string ends at its closing quote, since every quote in it is escaped (`readString_quoted`).  The
reader of an escape of four digits looks at the next escape too, which is well formed where one
begins (`WellBegun`).  An integer ends at the comma or bracket behind it (`Ends`), and is read as an
integer if it fits into 64 bits (`readNumber_ofInt`).  Conversely all integers that are read fit
into 64 bits (`inRange_of_readNumber`).
-/

namespace CatalogChain

/-! ## Numbers -/

/-- An integer fits into 64 bits, with or without a sign. -/
def Number.InRange : Number → Prop
  | .integer n => -(twoTo 63 : Int) ≤ n ∧ n < twoTo 64
  | .float _ => True

/-- Whether a number is an integer. -/
def Number.isInteger : Number → Bool
  | .integer _ => true
  | .float _ => false

namespace Outline

/-! ## Strings -/

/-- A text that begins with an escape of four digits begins with digits. -/
def WellBegun (cs : List Char) : Prop :=
  ∀ a b c d rest, cs = '\\' :: 'u' :: a :: b :: c :: d :: rest → (unit? a b c d).isSome

theorem readString_plain {read : List Char} {whole : Bool} {c : Char} (cs : List Char)
    (hquote : c ≠ '"') (hslash : c ≠ '\\') (hlow : 0x20 ≤ c.toNat) :
    readString read whole (c :: cs) = readString (c :: read) whole cs := by
  rw [readString.eq_5 _ _ _ _ hquote (fun _ _ _ _ _ h _ => hslash h) fun _ _ h _ => hslash h,
    if_neg (Nat.not_lt.mpr hlow)]

theorem readString_letter {read : List Char} {whole : Bool} {c e : Char} (cs : List Char)
    (hc : c ≠ 'u') (he : escape? c = some e) :
    readString read whole ('\\' :: c :: cs) = readString (e :: read) whole cs := by
  rw [readString.eq_4 _ _ _ _ fun _ _ _ _ _ h _ => hc h, he]

/-- An escape of four digits stands for its character if that is no half of a pair. -/
theorem readString_unit (read : List Char) (whole : Bool) {a b c d : Char} {n : Nat}
    {cs : List Char} (hn : unit? a b c d = some n) (hlow : n < 0xD800) (hcs : WellBegun cs) :
    readString read whole ('\\' :: 'u' :: a :: b :: c :: d :: cs) =
      readString (Char.ofNat n :: read) whole cs := by
  have hhigh : isHighHalf n = false := by
    simp [isHighHalf]
    omega
  have hlow : isLowHalf n = false := by
    simp [isLowHalf]
    omega
  rw [readString.eq_3, hn]
  simp only
  split
  · next e f g h rest =>
    obtain ⟨m, hm⟩ := Option.isSome_iff_exists.mp (hcs e f g h rest rfl)
    simp only [hm, hhigh, hlow, Bool.false_and, Bool.or_false, Bool.false_eq_true, if_false]
  · simp only [hhigh, hlow, Bool.or_false, Bool.false_eq_true, if_false]

/-- **How a character is written in a string**: by a letter, by four digits, or by itself. -/
theorem escaped_cases (c : Char) :
    (∃ e, Json.escaped c = ['\\', e] ∧ e ≠ 'u' ∧ escape? e = some c) ∨
      (∃ a b d e, Json.escaped c = ['\\', 'u', a, b, d, e] ∧ unit? a b d e = some c.toNat ∧
        c.toNat < 0x20) ∨
      Json.escaped c = [c] ∧ c ≠ '"' ∧ c ≠ '\\' ∧ 0x20 ≤ c.toNat := by
  unfold Json.escaped
  split
  · exact .inl ⟨'"', rfl, by decide, rfl⟩
  · exact .inl ⟨'\\', rfl, by decide, rfl⟩
  · exact .inl ⟨'b', rfl, by decide, rfl⟩
  · exact .inl ⟨'f', rfl, by decide, rfl⟩
  · exact .inl ⟨'n', rfl, by decide, rfl⟩
  · exact .inl ⟨'r', rfl, by decide, rfl⟩
  · exact .inl ⟨'t', rfl, by decide, rfl⟩
  · next hquote hslash _ _ _ _ _ =>
    split_ifs with hlow
    · have hlen := Text.length_hexDigits 4 c.toNat
      have hread := Text.readHex?_hexDigits 4 c.toNat
      have hmod : c.toNat % twoTo (4 * 4) = c.toNat :=
        Nat.mod_eq_of_lt (Nat.lt_trans hlow (by decide))
      rw [hmod] at hread
      obtain ⟨a, b, d, e, heq⟩ := List.length_eq_four.mp hlen
      rw [heq] at hread ⊢
      exact .inr (.inl ⟨a, b, d, e, rfl, hread, hlow⟩)
    · exact .inr (.inr ⟨rfl, hquote, hslash, Nat.not_lt.mp hlow⟩)

theorem wellBegun_flatMap_escaped (s cs : List Char) :
    WellBegun (s.flatMap Json.escaped ++ '"' :: cs) := by
  cases s with
  | nil =>
    intro a b c d rest h
    cases h
  | cons x s =>
    rw [List.flatMap_cons]
    rcases escaped_cases x with ⟨e, hx, hu, -⟩ | ⟨a, b, d, e, hx, hunit, -⟩ | ⟨hx, -, hslash, -⟩
    · rw [hx]
      intro a b c d rest h
      exact absurd (List.cons.inj (List.cons.inj h).2).1 hu
    · rw [hx]
      intro a' b' d' e' rest h
      cases h
      rw [hunit]
      rfl
    · rw [hx]
      intro a b c d rest h
      exact absurd (List.cons.inj h).1 hslash

/-- **The characters of a string read back** up to the closing quote. -/
theorem readString_flatMap_escaped (s read cs : List Char) :
    readString read true (s.flatMap Json.escaped ++ '"' :: cs) =
      some (some (String.ofList (read.reverse ++ s)), cs) := by
  induction s generalizing read with
  | nil =>
    rw [List.flatMap_nil, List.nil_append, readString.eq_2, List.append_nil]
    rfl
  | cons x s ih =>
    have hrest := wellBegun_flatMap_escaped s cs
    have ih := ih (x :: read)
    rw [List.reverse_cons, List.append_assoc, List.singleton_append] at ih
    rw [List.flatMap_cons, List.append_assoc, ← ih]
    rcases escaped_cases x with ⟨e, hx, hu, he⟩ | ⟨a, b, d, e, hx, hunit, hlow⟩ |
      ⟨hx, hquote, hslash, hlow⟩
    · rw [hx]
      exact readString_letter _ hu he
    · have hread := readString_unit read true hunit (Nat.lt_trans hlow (by decide))
        hrest
      rw [Char.ofNat_toNat] at hread
      rw [hx]
      exact hread
    · rw [hx]
      exact readString_plain _ hquote hslash hlow

theorem toList_quoted (s : String) :
    (Json.quoted s).toList = '"' :: (s.toList.flatMap Json.escaped ++ ['"']) := by
  simp [Json.quoted]

/-- **A string reads back** behind its opening quote. -/
theorem readString_quoted (s : String) (cs : List Char) :
    readString [] true (s.toList.flatMap Json.escaped ++ '"' :: cs) = some (some s, cs) := by
  rw [readString_flatMap_escaped, List.reverse_nil, List.nil_append, String.ofList_toList]

/-! ## Integers -/

/-- **What follows a value** in a text: nothing, or a comma or bracket. -/
def Ends (cs : List Char) : Prop := ∀ c ∈ cs.head?, c = ',' ∨ c = ']' ∨ c = '\x7d'

theorem spanDigits_append {ds cs : List Char} (hd : ∀ c ∈ ds, c.isDigit = true) (h : Ends cs) :
    spanDigits (ds ++ cs) = (ds, cs) := by
  have hstop : cs.takeWhile Char.isDigit = [] ∧ cs.dropWhile Char.isDigit = cs := by
    cases cs with
    | nil => exact ⟨rfl, rfl⟩
    | cons c cs =>
      have hc : c.isDigit = false := by
        rcases h c rfl with rfl | rfl | rfl <;> decide
      rw [List.takeWhile_cons, List.dropWhile_cons, hc]
      exact ⟨rfl, rfl⟩
  rw [spanDigits, List.takeWhile_append_of_pos hd, List.dropWhile_append_of_pos hd, hstop.1,
    hstop.2, List.append_nil]

theorem readFraction_of_ends {cs : List Char} (h : Ends cs) :
    readFraction cs = some (none, cs) := by
  unfold readFraction
  split
  · next cs =>
    have hpoint := h '.' rfl
    simp at hpoint
  · rfl

theorem readExponent_of_ends {cs : List Char} (h : Ends cs) :
    readExponent cs = some (none, cs) := by
  cases cs with
  | nil => rfl
  | cons c cs =>
    have hmark : ¬(c = 'e' ∨ c = 'E') := by
      rcases h c rfl with rfl | rfl | rfl <;> decide
    simp only [readExponent, if_neg hmark]

/-- Digits of a number do not begin with a zero unless there is only one. -/
theorem toDigits_head (n : Nat) : (Nat.toDigits 10 n).head? = some '0' →
    (Nat.toDigits 10 n).length = 1 := by
  induction n using Nat.strongRecOn with
  | ind n ih =>
    by_cases hn : n < 10
    · rw [Nat.toDigits_of_lt_base hn]
      exact fun _ => rfl
    · have hpos : 0 < n / 10 := Nat.div_pos (Nat.not_lt.mp hn) (by decide)
      rw [Nat.toDigits_of_base_le (by decide) (Nat.not_lt.mp hn),
        List.head?_append_of_ne_nil _ Nat.toDigits_ne_nil]
      intro hzero
      -- the quotient would be a single zero
      have hone := ih (n / 10) (by omega) hzero
      have hlt : n / 10 < 10 := by
        have h := (Nat.length_toDigits_le_iff (b := 10) (k := 1) (n := n / 10) (by decide)
          (by decide)).mp (Nat.le_of_eq hone)
        omega
      rw [Nat.toDigits_of_lt_base hlt] at hzero
      have hdigit : ∀ m < 10, 0 < m → Nat.digitChar m ≠ '0' := by decide
      exact absurd (Option.some.inj hzero) (hdigit _ hlt hpos)

/-- Digits behind an optional sign are a literal without fraction and exponent. -/
theorem readNumber_toDigits (negative : Bool) (n : Nat) {cs : List Char} (h : Ends cs) :
    readNumber ((if negative then ['-'] else []) ++ (Nat.toDigits 10 n ++ cs)) =
      some (Number.ofLiteral? negative (Nat.toDigits 10 n) none none, cs) := by
  obtain ⟨c, ds, hds, hd, -⟩ := Decimal.toDigits_eq_cons n
  have hminus : c ≠ '-' := by
    rintro rfl
    have hdigit := hd '-' List.mem_cons_self
    cases hdigit
  have hspan : spanDigits (c :: (ds ++ cs)) = (c :: ds, cs) := spanDigits_append hd h
  have hsingle : c = '0' → ds = [] := by
    intro hc
    have hzero := toDigits_head n
    rw [hds, hc] at hzero
    exact List.eq_nil_of_length_eq_zero (Nat.succ.inj (hzero rfl))
  rw [hds]
  cases negative
  · simpa [readNumber, hminus, hspan, readFraction_of_ends h, readExponent_of_ends h] using hsingle
  · simpa [readNumber, hspan, readFraction_of_ends h, readExponent_of_ends h] using hsingle

/-- **An integer reads back** in front of what may follow it. -/
theorem readNumber_ofInt {n : Int} (hn : (Number.integer n).InRange) {cs : List Char}
    (h : Ends cs) : readNumber ((Text.ofInt n).toList ++ cs) = some (some (.integer n), cs) := by
  obtain ⟨hlow, hhigh⟩ := hn
  cases n with
  | ofNat n =>
    have hread := readNumber_toDigits false n h
    have hlt : n < twoTo 64 := by
      rw [Int.ofNat_eq_natCast] at hhigh
      exact_mod_cast hhigh
    rw [Text.ofInt, Text.ofNat, String.toList_ofList]
    refine hread.trans ?_
    simp [Number.ofLiteral?, Nat.ofDigitChars_toDigits, hlt]
  | negSucc n =>
    have hread := readNumber_toDigits true (n + 1) h
    have hle : n + 1 ≤ twoTo 63 := by omega
    have htext : (Text.ofInt (.negSucc n)).toList = '-' :: Nat.toDigits 10 (n + 1) := by
      simp [Text.ofInt, Text.ofNat]
    have hneg : Int.negSucc n = -((n + 1 : Nat) : Int) := by omega
    rw [htext]
    refine hread.trans ?_
    simp [Number.ofLiteral?, Nat.ofDigitChars_toDigits, hle, hneg]

end Outline

/-! ## The range of numbers -/

theorem Number.inRange_of_floatOfLiteral? {negative : Bool} {whole fraction : List Char}
    {exponent : Int} {n : Number} (h : floatOfLiteral? negative whole fraction exponent = some n) :
    n.InRange := by
  simp only [floatOfLiteral?, Option.bind_eq_bind, Option.bind_eq_some_iff, Option.pure_def] at h
  obtain ⟨x, -, hx⟩ := h
  cases hx
  trivial

/-- **The integers that are read fit into 64 bits.** -/
theorem Number.inRange_of_ofLiteral? {negative : Bool} {whole : List Char}
    {fraction : Option (List Char)} {exponent : Option (Bool × List Char)} {n : Number}
    (h : ofLiteral? negative whole fraction exponent = some n) : n.InRange := by
  unfold ofLiteral? at h
  split at h
  · simp only at h
    split_ifs at h with hplus hminus
    · cases h
      have hneg : -(twoTo 63 : Int) ≤ 0 := by omega
      exact ⟨by omega, by exact_mod_cast hplus.2⟩
    · cases h
      have hpos : (0 : Int) < twoTo 64 := by decide
      exact ⟨by omega, by omega⟩
    · exact inRange_of_floatOfLiteral? h
  · exact inRange_of_floatOfLiteral? h
  · split at h
    · exact inRange_of_floatOfLiteral? h
    · simp only at h
      split_ifs at h
      cases h
      trivial

theorem Outline.inRange_of_readNumber {cs rest : List Char} {x : Option Number}
    (h : readNumber cs = some (x, rest)) : ∀ n ∈ x, n.InRange := by
  unfold readNumber at h
  simp only [Option.bind_eq_bind] at h
  split_ifs at h
  all_goals
    simp only [Option.bind_eq_some_iff, Option.pure_def, Option.some.injEq, Prod.mk.injEq] at h
    obtain ⟨_, -, _, -, rfl, -⟩ := h
    exact fun n hn => Number.inRange_of_ofLiteral? hn

end CatalogChain
