/-!
# Integers in decimal notation

Integers are written in base ten without leading zeros, a minus sign in front of a negative one
(`Text.ofNat`, `Text.ofInt`).  They are read more freely: leading zeros and a plus sign are
accepted, blanks and digits of other scripts are not.  `readNat?_ofNat` says that what is written
reads back.
-/

namespace CatalogChain.Text

/-! ## Writing -/

/-- The decimal digits of a number. -/
def ofNat (n : Nat) : String := String.ofList (Nat.toDigits 10 n)

/-- The decimal notation of an integer. -/
def ofInt : Int → String
  | .ofNat n => ofNat n
  | .negSucc n => "-" ++ ofNat (n + 1)

/-- The last `width` decimal digits of a number, padded with zeros in front. -/
def padded (width n : Nat) : String :=
  let digits := Nat.toDigits 10 n
  String.ofList (List.replicate (width - digits.length) '0' ++ digits)

/-! ## Reading -/

/-- The value of a non-empty run of decimal digits. -/
def digits? (cs : List Char) : Option Nat :=
  if cs ≠ [] ∧ cs.all Char.isDigit then some (Nat.ofDigitChars 10 cs 0) else none

/-- Reads a number: digits after an optional plus sign. -/
def readNat? : List Char → Option Nat
  | '+' :: cs => digits? cs
  | cs => digits? cs

/-- Reads an integer: digits after an optional sign. -/
def readInt? : List Char → Option Int
  | '-' :: cs => (digits? cs).map fun n => -(n : Int)
  | cs => (readNat? cs).map Int.ofNat

/-- Splits off the leading decimal digits, at most `limit` of them. -/
def takeDigits : Nat → List Char → List Char × List Char
  | limit + 1, c :: cs =>
    if c.isDigit then
      let (digits, rest) := takeDigits limit cs
      (c :: digits, rest)
    else ([], c :: cs)
  | _, cs => ([], cs)

/-! ## What is written reads back -/

theorem digits?_toDigits (n : Nat) : digits? (Nat.toDigits 10 n) = some n := by
  have hne : Nat.toDigits 10 n ≠ [] := Nat.toDigits_ne_nil
  have hall : (Nat.toDigits 10 n).all Char.isDigit = true := by
    simpa using fun c hc => Nat.isDigit_of_mem_toDigits (by decide) (by decide) hc
  simp [digits?, hne, hall, Nat.ofDigitChars_toDigits]

theorem readNat?_eq_digits? {cs : List Char} (h : cs.all Char.isDigit = true) :
    readNat? cs = digits? cs := by
  unfold readNat?
  split
  · simp [Char.isDigit] at h
  · rfl

theorem readNat?_ofNat (n : Nat) : readNat? (ofNat n).toList = some n := by
  have hall : (Nat.toDigits 10 n).all Char.isDigit = true := by
    simpa using fun c hc => Nat.isDigit_of_mem_toDigits (by decide) (by decide) hc
  rw [ofNat, String.toList_ofList, readNat?_eq_digits? hall, digits?_toDigits]

end CatalogChain.Text
