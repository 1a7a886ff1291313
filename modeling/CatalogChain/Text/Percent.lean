import CatalogChain.Text.Hex

/-!
# Percent-encoded text

In a path or a query, `%` and two hexadecimal digits stand for one byte; every other byte stands for
itself, a `%` without two digits included.  The bytes are UTF-8, and bytes that are not have no
text (`decode?`).  In a query a plus sign stands for a space (`decodeForm?`).
-/

namespace CatalogChain.Text

/-- The UTF-8 bytes of a text. -/
def utf8 (s : String) : List UInt8 := s.toUTF8.toList

namespace Percent

private def digit? (b : UInt8) : Option Nat := hexValue? (Char.ofNat b.toNat)

/-- Replaces each escape by the byte it stands for. -/
def decodeBytes : List UInt8 → List UInt8
  | 0x25 :: a :: b :: rest =>
    match digit? a, digit? b with
    | some high, some low => UInt8.ofNat (16 * high + low) :: decodeBytes rest
    | _, _ => 0x25 :: decodeBytes (a :: b :: rest)
  | c :: rest => c :: decodeBytes rest
  | [] => []

/-- The text that an encoded text stands for, if its bytes are UTF-8. -/
def decode? (s : String) : Option String :=
  String.fromUTF8? ⟨(decodeBytes (utf8 s)).toArray⟩

/-- The same with a plus sign for a space. -/
def decodeForm? (s : String) : Option String :=
  decode? (String.ofList (s.toList.map fun c => if c = '+' then ' ' else c))

end Percent

end CatalogChain.Text
