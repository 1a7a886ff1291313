import CatalogChain.Instant.Basic
import CatalogChain.Power
import CatalogChain.Text.Blank
import CatalogChain.Text.Integer

/-!
# Reading instants

`Instant.read?` reads a date, one separator out of `T`, `t` and space, a time and an offset from
UTC.  Blanks may stand in front of every number, hyphen and colon and of the offset.  Months,
days, hours, minutes and seconds have one or two digits, a year up to four or, behind a sign, any
number.  Of the fraction of a second nine digits count and further ones are dropped.  The offset
is `Z`, `UTC` or a sign with two digits of hours and two digits of minutes.
-/

namespace CatalogChain.Instant

/-- Reads a number of at least one and at most `limit` digits behind blanks. -/
def readNumber? (limit : Nat) (cs : List Char) : Option (Nat × List Char) :=
  let (digits, rest) := Text.takeDigits limit (Text.trimStart cs)
  if digits = [] then none else some (Nat.ofDigitChars 10 digits 0, rest)

/-- Reads a year behind blanks. -/
def readYear? (cs : List Char) : Option (Int × List Char) :=
  let signed := fun (sign : Int) (cs : List Char) =>
    let digits := cs.takeWhile Char.isDigit
    if digits = [] then none
    else some (sign * Nat.ofDigitChars 10 digits 0, cs.dropWhile Char.isDigit)
  match Text.trimStart cs with
  | '-' :: cs => signed (-1) cs
  | '+' :: cs => signed 1 cs
  | cs => (readNumber? 4 cs).map fun (year, cs) => ((year : Int), cs)

/-- Reads a mark behind blanks. -/
def readMark? (mark : Char) (cs : List Char) : Option (List Char) :=
  match Text.trimStart cs with
  | c :: cs => if c = mark then some cs else none
  | [] => none

/-- Reads the separator between date and time. -/
def readSeparator? : List Char → Option (List Char)
  | c :: cs => if c = 'T' ∨ c = 't' ∨ c = ' ' then some cs else none
  | [] => none

/-- Reads a fraction of a second, if there is one, in nanoseconds. -/
def readFraction? : List Char → Option (Nat × List Char)
  | '.' :: cs =>
    let (digits, rest) := Text.takeDigits 9 cs
    if digits = [] then none
    else
      let nano := Nat.ofDigitChars 10 digits 0 * tenTo (9 - digits.length)
      some (nano, rest.dropWhile Char.isDigit)
  | cs => some (0, cs)

/-- Reads two digits. -/
def readPair? : List Char → Option (Nat × List Char)
  | a :: b :: cs =>
    if a.isDigit ∧ b.isDigit then some (Nat.ofDigitChars 10 [a, b] 0, cs) else none
  | _ => none

/-- Reads an offset behind blanks, in minutes. -/
def readOffset? (cs : List Char) : Option (Int × List Char) :=
  let signed := fun (sign : Int) (cs : List Char) => do
    let (hours, cs) ← readPair? cs
    let (minutes, cs) ← readPair? (cs.dropWhile fun c => c = ':' || Text.isBlank c)
    if 60 ≤ minutes ∨ 24 ≤ hours then none else some (sign * (60 * hours + minutes), cs)
  match Text.trimStart cs with
  | a :: b :: c :: cs =>
    if a.toUpper = 'U' ∧ b.toUpper = 'T' ∧ c.toUpper = 'C' then some (0, cs)
    else if a = 'Z' ∨ a = 'z' then some (0, b :: c :: cs)
    else if a = '+' then signed 1 (b :: c :: cs)
    else if a = '-' ∨ a = '−' then signed (-1) (b :: c :: cs)
    else none
  | c :: cs => if c = 'Z' ∨ c = 'z' then some (0, cs) else none
  | [] => none

/-- **Reading an instant.** -/
def read? (s : String) : Option Instant := do
  let (year, cs) ← readYear? s.toList
  let (month, cs) ← readNumber? 2 (← readMark? '-' cs)
  let (day, cs) ← readNumber? 2 (← readMark? '-' cs)
  let (hour, cs) ← readNumber? 2 (← readSeparator? cs)
  let (minute, cs) ← readNumber? 2 (← readMark? ':' cs)
  let (second, cs) ← readNumber? 2 (← readMark? ':' cs)
  let (nano, cs) ← readFraction? cs
  let (offset, cs) ← readOffset? cs
  if Text.trimStart cs ≠ [] ∨ 24 ≤ hour ∨ 60 ≤ minute then none
  else if second = 60 then ofLocal? offset year month day hour minute 59 (nano + nanosPerSecond)
  else ofLocal? offset year month day hour minute second nano

end CatalogChain.Instant
