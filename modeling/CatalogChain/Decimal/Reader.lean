import CatalogChain.Decimal.Basic

/-!
# Reading decimal amounts

`Decimal.read?` reads an optional sign and digits with an optional point; underscores may stand
behind the first digit.  Digits that do not fit behind the point are rounded half up on the first
of them.  `Decimal.readScientific?` also reads an exponent of ten behind `e` or `E`.

Zero has no sign as it is read, but an amount that an exponent rounds to zero keeps its sign.
-/

namespace CatalogChain.Decimal

/-- Ends the reading of digits where no more fit: the rest must be digits and underscores, and its
first digit rounds up if it is five or more.  A magnitude that becomes too large thereby gives up
its last digit. -/
def roundOff (magnitude scale : Nat) (rest : List Char) : Option (Nat × Nat) :=
  if rest.all fun c => c.isDigit || c = '_' then
    if (rest.find? Char.isDigit).any fun c => '5' ≤ c then
      if magnitude + 1 < bound then some (magnitude + 1, scale)
      else if scale = 0 then none
      else some ((magnitude + 1 + 4) / 10, scale - 1)
    else some (magnitude, scale)
  else none

/-- **Reads the digits of an amount** behind its sign: `point` says whether the point has been read,
`any` whether a digit has. -/
def readDigits (point any : Bool) (magnitude scale : Nat) : List Char → Option (Nat × Nat)
  | [] => if any then some (magnitude, scale) else none
  | '.' :: cs => if point then none else readDigits true any magnitude scale cs
  | '_' :: cs => if any then readDigits point any magnitude scale cs else none
  | c :: cs =>
    if c.isDigit then
      let magnitude' := 10 * magnitude + (c.toNat - '0'.toNat)
      let scale' := if point then scale + 1 else scale
      if bound ≤ magnitude' then
        if point then roundOff magnitude scale (c :: cs) else none
      else if point ∧ 28 ≤ scale' then roundOff magnitude' scale' cs
      else readDigits point true magnitude' scale' cs
    else none

/-- Reads an amount in positional notation. -/
def readPlain? (cs : List Char) : Option Decimal :=
  let (negative, cs) : Bool × List Char :=
    match cs with
    | '-' :: cs => (true, cs)
    | '+' :: cs => (false, cs)
    | cs => (false, cs)
  (readDigits false false 0 0 cs).bind fun (magnitude, scale) =>
    ofDigits? negative magnitude scale

/-- Removes the last digits of a magnitude, rounding half up. -/
def rescale (magnitude places : Nat) : Nat := (magnitude + tenTo places / 2) / tenTo places

/-- Multiplies an amount by `10 ^ -places`; places beyond the greatest scale are rounded off
first. -/
def shiftDown? (d : Decimal) (places : Nat) : Option Decimal :=
  if 28 < places then none
  else if 28 < d.scale + places then
    ofParts? d.negative (rescale d.magnitude (d.scale + places - 28)) 28
  else ofParts? d.negative d.magnitude (d.scale + places)

/-- Multiplies an amount by `10 ^ places`: takes from the scale first and appends zeros then. -/
def shiftUp? (d : Decimal) (places : Nat) : Option Decimal :=
  if 28 < places then none
  else if places ≤ d.scale then ofParts? d.negative d.magnitude (d.scale - places)
  else ofParts? d.negative (d.magnitude * tenTo (places - d.scale)) 0

/-- The places of an exponent: a number of 32 bits. -/
def places? (cs : List Char) : Option Nat :=
  (Text.readNat? cs).filter (· < twoTo 32)

/-- Reads an amount in positional notation with an exponent of ten. -/
def readScientific? (cs : List Char) : Option Decimal :=
  let isMark := fun c : Char => c = 'e' || c = 'E'
  match cs.dropWhile fun c => !isMark c with
  | [] => none
  | _ :: exponent => do
    let base ← readPlain? (cs.takeWhile fun c => !isMark c)
    match exponent with
    | '-' :: exponent => base.shiftDown? (← places? exponent)
    | exponent => base.shiftUp? (← places? exponent)

/-- **Reading an amount** in either notation. -/
def read? (s : String) : Option Decimal :=
  readPlain? s.toList <|> readScientific? s.toList

end CatalogChain.Decimal
