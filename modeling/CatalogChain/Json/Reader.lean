import CatalogChain.Json.Outline
import CatalogChain.Text.Hex

/-!
# Reading JSON texts

`Outline.read` finds the outline of the value at the beginning of a text and the rest of the text
behind it.  `Json.read?` asks for more: the text holds one value and nothing else, all of it has a
value, and its nesting is bounded.

Numbers that are written without fraction and exponent are integers as long as they fit into 64
bits, with the exception of `-0`; all others are floating-point numbers (`Number.ofLiteral?`).
-/

namespace CatalogChain

/-! ## Numbers -/

namespace Number

/-- Takes digits into a significand as long as it fits into 64 bits; gives the significand and
the digits that are left. -/
def significand : Nat → List Char → Nat × List Char
  | n, [] => (n, [])
  | n, c :: cs =>
    let next := 10 * n + (c.toNat - '0'.toNat)
    if next < twoTo 64 then significand next cs else (n, c :: cs)

/-- The floating-point number of a literal.  Digits that do not fit into the significand are
dropped: before the point they count as powers of ten, behind it they are lost. -/
def floatOfLiteral? (negative : Bool) (whole fraction : List Char) (exponent : Int) :
    Option Number := do
  let (n, dropped) := significand 0 whole
  let (n, lost) := significand n fraction
  let places : Int := dropped.length - (fraction.length - lost.length : Nat)
  let x ← Binary64.ofDecimal? n (places + exponent)
  return .float (x.withSign negative)

/-- The exponent of a literal, unless it has more than 31 bits. -/
def exponent? (negative : Bool) (digits : List Char) : Option Int :=
  let n := Nat.ofDigitChars 10 digits 0
  if n < twoTo 31 then some (if negative then -(n : Int) else n) else none

/-- **The value of a literal**, given by its sign, the digits before the point, the digits behind
the point if there is one, and the sign and digits of the exponent if there is one. -/
def ofLiteral? (negative : Bool) (whole : List Char) (fraction : Option (List Char))
    (exponent : Option (Bool × List Char)) : Option Number :=
  match fraction, exponent with
  | none, none =>
    let n := Nat.ofDigitChars 10 whole 0
    if ¬ negative ∧ n < twoTo 64 then some (.integer n)
    else if negative ∧ 0 < n ∧ n ≤ twoTo 63 then some (.integer (-(n : Int)))
    else floatOfLiteral? negative whole [] 0
  | fraction, none => floatOfLiteral? negative whole (fraction.getD []) 0
  | fraction, some (down, digits) =>
    match exponent? down digits with
    | some e => floatOfLiteral? negative whole (fraction.getD []) e
    | none =>
      let (n, _) := significand 0 whole
      let (n, _) := significand n (fraction.getD [])
      if n = 0 ∨ down then some (.float (Binary64.zero negative)) else none

end Number

namespace Outline

/-! ## Parts of a text -/

/-- The characters that may stand between the parts of a text. -/
def isSpace (c : Char) : Bool := c = ' ' || c = '\n' || c = '\t' || c = '\r'

/-- Skips the space in front. -/
def skipSpace (cs : List Char) : List Char := cs.dropWhile isSpace

/-- A code unit of four hexadecimal digits. -/
def unit? (a b c d : Char) : Option Nat := Text.readHex? [a, b, c, d]

/-- The character that a single letter stands for behind a backslash. -/
def escape? : Char → Option Char
  | '"' => some '"'
  | '\\' => some '\\'
  | '/' => some '/'
  | 'b' => some '\x08'
  | 'f' => some '\x0c'
  | 'n' => some '\n'
  | 'r' => some '\r'
  | 't' => some '\t'
  | _ => none

/-- Whether a code unit is the first half of a surrogate pair. -/
def isHighHalf (n : Nat) : Bool := 0xD800 ≤ n && n ≤ 0xDBFF

/-- Whether a code unit is the second half of a surrogate pair. -/
def isLowHalf (n : Nat) : Bool := 0xDC00 ≤ n && n ≤ 0xDFFF

/-- **Reads a string** behind its opening quote.  `read` holds the characters so far, latest
first, and `whole` whether every surrogate so far was paired.  Gives the text, if it has one, and
what follows the closing quote; nothing when the string is malformed. -/
def readString (read : List Char) (whole : Bool) :
    List Char → Option (Option String × List Char)
  | [] => none
  | '"' :: cs => some (if whole then some (String.ofList read.reverse) else none, cs)
  | '\\' :: 'u' :: a :: b :: c :: d :: cs =>
    match unit? a b c d with
    | none => none
    | some high =>
      match cs with
      | '\\' :: 'u' :: e :: f :: g :: h :: cs' =>
        match unit? e f g h with
        | none => none
        | some low =>
          if isHighHalf high && isLowHalf low then
            let code := 0x10000 + (high - 0xD800) * 0x400 + (low - 0xDC00)
            readString (Char.ofNat code :: read) whole cs'
          else if isHighHalf high || isLowHalf high then
            readString read false ('\\' :: 'u' :: e :: f :: g :: h :: cs')
          else
            readString (Char.ofNat high :: read) whole ('\\' :: 'u' :: e :: f :: g :: h :: cs')
      | cs =>
        if isHighHalf high || isLowHalf high then readString read false cs
        else readString (Char.ofNat high :: read) whole cs
  | '\\' :: c :: cs =>
    match escape? c with
    | none => none
    | some e => readString (e :: read) whole cs
  | c :: cs => if c.toNat < 0x20 then none else readString (c :: read) whole cs
termination_by cs => cs.length

/-- Splits off the leading decimal digits. -/
def spanDigits (cs : List Char) : List Char × List Char :=
  (cs.takeWhile Char.isDigit, cs.dropWhile Char.isDigit)

/-- Reads the exponent of a number, if there is one: its sign and its digits. -/
def readExponent : List Char → Option (Option (Bool × List Char) × List Char)
  | c :: cs =>
    if c = 'e' ∨ c = 'E' then
      let (down, cs) : Bool × List Char :=
        match cs with
        | '+' :: cs => (false, cs)
        | '-' :: cs => (true, cs)
        | cs => (false, cs)
      match spanDigits cs with
      | ([], _) => none
      | (digits, rest) => some (some (down, digits), rest)
    else some (none, c :: cs)
  | [] => some (none, [])

/-- Reads the fraction of a number, if there is one. -/
def readFraction : List Char → Option (Option (List Char) × List Char)
  | '.' :: cs =>
    match spanDigits cs with
    | ([], _) => none
    | (digits, rest) => some (some digits, rest)
  | cs => some (none, cs)

/-- **Reads a number** with its sign. -/
def readNumber (cs : List Char) : Option (Option Number × List Char) := do
  let negative := cs.head? = some '-'
  let (whole, cs) := spanDigits (if negative then cs.drop 1 else cs)
  if whole = [] ∨ (whole.head? = some '0' ∧ whole.length ≠ 1) then none
  else
    let (fraction, cs) ← readFraction cs
    let (exponent, cs) ← readExponent cs
    return (Number.ofLiteral? negative whole fraction exponent, cs)

/-- Reads the rest of a word that stands for a value. -/
def readWord (value : Outline) (word cs : List Char) : Outline × Option (List Char) :=
  if word.isPrefixOf cs then (value, some (cs.drop word.length)) else (broken, none)

/-- Reads the name of a member.  Gives what follows the colon behind it, if there is one; nothing
when there is no name. -/
def readKey? : List Char → Option (Option String × Option (List Char))
  | '"' :: cs =>
    match readString [] true cs with
    | none => none
    | some (key, cs) =>
      match skipSpace cs with
      | ':' :: cs => some (key, some cs)
      | _ => some (key, none)
  | _ => none

/-! ## Values -/

mutual

/-- **Reads a value.**  Gives its outline and, unless the text is malformed there, what follows it.
Every call uses up one unit of `fuel`. -/
def readValue : (fuel : Nat) → List Char → Outline × Option (List Char)
  | 0, _ => (broken, none)
  | fuel + 1, cs =>
    match skipSpace cs with
    | 'n' :: cs => readWord null ['u', 'l', 'l'] cs
    | 't' :: cs => readWord (bool true) ['r', 'u', 'e'] cs
    | 'f' :: cs => readWord (bool false) ['a', 'l', 's', 'e'] cs
    | '"' :: cs =>
      match readString [] true cs with
      | some (s, cs) => (string s, some cs)
      | none => (broken, none)
    | '[' :: cs =>
      match skipSpace cs with
      | ']' :: cs => (array [] true, some cs)
      | cs =>
        let (items, rest) := readItems fuel cs
        (array items rest.isSome, rest)
    | '{' :: cs =>
      match skipSpace cs with
      | '}' :: cs => (object [] true, some cs)
      | cs =>
        let (members, rest) := readMembers fuel cs
        (object members rest.isSome, rest)
    | cs =>
      match readNumber cs with
      | some (n, cs) => (number n, some cs)
      | none => (broken, none)

/-- Reads the items of an array, one at least, up to and including the closing bracket. -/
def readItems : (fuel : Nat) → List Char → List Outline × Option (List Char)
  | 0, _ => ([], none)
  | fuel + 1, cs =>
    match readValue fuel cs with
    | (o, none) => ([o], none)
    | (o, some cs) =>
      match skipSpace cs with
      | ']' :: cs => ([o], some cs)
      | ',' :: cs =>
        let (items, rest) := readItems fuel cs
        (o :: items, rest)
      | _ => ([o], none)

/-- Reads the members of an object, one at least, up to and including the closing brace. -/
def readMembers : (fuel : Nat) → List Char → List (Option String × Outline) × Option (List Char)
  | 0, _ => ([], none)
  | fuel + 1, cs =>
    match readKey? (skipSpace cs) with
    | none => ([], none)
    | some (key, none) => ([(key, broken)], none)
    | some (key, some cs) =>
      match readValue fuel cs with
      | (o, none) => ([(key, o)], none)
      | (o, some cs) =>
        match skipSpace cs with
        | '}' :: cs => ([(key, o)], some cs)
        | ',' :: cs =>
          let (members, rest) := readMembers fuel cs
          ((key, o) :: members, rest)
        | _ => ([(key, o)], none)

end

/-- **The outline of the value at the beginning of a text** and, unless the text is malformed, what
follows it. -/
def read (s : String) : Outline × Option (List Char) :=
  let cs := s.toList
  readValue (2 * cs.length + 2) cs

/-- The outline of a text that holds one value and nothing else. -/
def readWhole? (s : String) : Option Outline :=
  match read s with
  | (o, some rest) => if skipSpace rest = [] then some o else none
  | (_, none) => none

end Outline

/-- **Reading a JSON text**: one value and nothing else. -/
def Json.read? (s : String) : Option Json :=
  (Outline.readWhole? s).bind fun o => (o.toJson Outline.maxDepth).toOption

end CatalogChain
