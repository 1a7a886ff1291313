import CatalogChain.Binary64.Shortest
import CatalogChain.Table

/-!
# JSON values

A JSON value as the library builds and compares it.  A number is either an integer of the signed or
unsigned 64-bit range or a floating-point number; `1` and `1.0` are different values.
-/

namespace CatalogChain

/-- **A number** in a JSON value. -/
inductive Number where
  | integer (n : Int)
  | float (x : Binary64)
deriving DecidableEq, Inhabited

/-- **A JSON value.** -/
inductive Json where
  | null
  | bool (b : Bool)
  | number (n : Number)
  | string (s : String)
  | array (items : List Json)
  | object (members : List (String × Json))
deriving Inhabited

namespace Json

/-- An integer as a value. -/
def int (n : Int) : Json := .number (.integer n)

/-- A natural number as a value. -/
def nat (n : Nat) : Json := .number (.integer n)

/-- A list as a value. -/
def list {α : Type} (encode : α → Json) (xs : List α) : Json := .array (xs.map encode)

/-- A value that may be missing, as a value or `null`. -/
def option {α : Type} (encode : α → Json) : Option α → Json
  | none => .null
  | some a => encode a

/-- A member that is left out when its value is missing. -/
def member? {α : Type} (key : String) (encode : α → Json) (x : Option α) : List (String × Json) :=
  x.toList.map fun a => (key, encode a)

/-- The member of an object under a key. -/
def get? (key : String) : Json → Option Json
  | .object members => Entries.get? key members
  | _ => none

/-- The text of a string value. -/
def string? : Json → Option String
  | .string s => some s
  | _ => none

/-- The integer of a number that has no fraction or exponent. -/
def int? : Json → Option Int
  | .number (.integer n) => some n
  | _ => none

/-- The number of an integer value that is not negative. -/
def nat? (v : Json) : Option Nat := v.int?.bind fun n => if n < 0 then none else some n.toNat

/-- The truth value of a Boolean. -/
def bool? : Json → Option Bool
  | .bool b => some b
  | _ => none

/-- The items of an array. -/
def items? : Json → Option (List Json)
  | .array items => some items
  | _ => none

/-- Replaces members of an object by others, each in its place or at the end. -/
def replace (v : Json) (members : List (String × Json)) : Json :=
  match v with
  | .object old => .object (members.foldl (fun es e => Entries.put e.1 e.2 es) old)
  | v => v

end Json

end CatalogChain
