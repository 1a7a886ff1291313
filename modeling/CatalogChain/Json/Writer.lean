import CatalogChain.Json.Basic
import CatalogChain.Text.Hex

/-!
# Writing JSON texts

`Json.text` writes a value without any space.  In strings the quote, the backslash and the control
characters are escaped, the latter by a letter where there is one and else by four lower-case
hexadecimal digits; every other character stands for itself.
-/

namespace CatalogChain.Json

/-- A character inside a string. -/
def escaped (c : Char) : List Char :=
  match c with
  | '"' => ['\\', '"']
  | '\\' => ['\\', '\\']
  | '\x08' => ['\\', 'b']
  | '\x0c' => ['\\', 'f']
  | '\n' => ['\\', 'n']
  | '\r' => ['\\', 'r']
  | '\t' => ['\\', 't']
  | c => if c.toNat < 0x20 then '\\' :: 'u' :: Text.hexDigits 4 c.toNat else [c]

/-- A string with its quotes. -/
def quoted (s : String) : String :=
  "\"" ++ String.ofList (s.toList.flatMap escaped) ++ "\""

/-- A number. -/
def numberText : Number → String
  | .integer n => Text.ofInt n
  | .float x => x.jsonText

mutual

/-- **The text of a value.** -/
def text : Json → String
  | .null => "null"
  | .bool true => "true"
  | .bool false => "false"
  | .number n => numberText n
  | .string s => quoted s
  | .array items => "[" ++ ",".intercalate (texts items) ++ "]"
  | .object members => "\x7b" ++ ",".intercalate (memberTexts members) ++ "\x7d"

/-- The texts of a list of values. -/
def texts : List Json → List String
  | [] => []
  | v :: vs => text v :: texts vs

/-- The texts of the members of an object. -/
def memberTexts : List (String × Json) → List String
  | [] => []
  | m :: ms => (quoted m.1 ++ ":" ++ text m.2) :: memberTexts ms

end

end CatalogChain.Json
