import CatalogChain.Json.Basic

/-!
# Outlines of JSON texts

A JSON text is read in two steps.  The first finds its outline (`Outline.read`), which needs no
idea of what the text should hold; the second takes a value of a certain type from the outline.
Outlines keep what the second step must tell apart:

* a text can be malformed somewhere behind a part that already has the wrong type, so an outline
  goes up to the first fault of the text and is `broken` or not closed there;
* a string with half a surrogate pair and a number that is too large are faults only where their
  value is asked for;
* members of an object keep their order and their repetitions.

The first fault in the order of the text decides whether a text is refused as malformed or as
mistyped (`Flaw`).
-/

namespace CatalogChain

/-- **Why a JSON text is refused**: it is not JSON, or it does not hold what is asked for. -/
inductive Flaw where
  | malformed
  | mistyped
deriving DecidableEq, Repr, Inhabited

/-- The outcome of taking a value from an outline. -/
abbrev Reading (α : Type) := Except Flaw α

/-- **The outline of a JSON text** up to its first fault. -/
inductive Outline where
  /-- Nothing here is the beginning of a value, or a scalar is malformed. -/
  | broken
  | null
  | bool (b : Bool)
  /-- A number, with its value unless that is out of range. -/
  | number (n : Option Number)
  /-- A string, with its text unless an escape leaves half a surrogate pair. -/
  | string (s : Option String)
  /-- The items of an array, and whether its closing bracket follows them. -/
  | array (items : List Outline) (closed : Bool)
  /-- The members of an object, and whether its closing brace follows them. -/
  | object (members : List (Option String × Outline)) (closed : Bool)
deriving Inhabited

namespace Outline

/-- The reason to refuse an outline where a value of another kind is asked for. -/
def flaw : Outline → Flaw
  | broken | number none | string none => .malformed
  | _ => .mistyped

/-! ## Skipping -/

mutual

/-- **Whether a value is well formed** as far as skipping it can tell: half surrogate pairs,
numbers out of range and any depth are accepted. -/
def isSkippable : Outline → Bool
  | broken => false
  | array items closed => closed && areSkippable items
  | object members closed => closed && haveSkippable members
  | _ => true

/-- Whether all items are skippable. -/
def areSkippable : List Outline → Bool
  | [] => true
  | o :: os => isSkippable o && areSkippable os

/-- Whether the values of all members are skippable. -/
def haveSkippable : List (Option String × Outline) → Bool
  | [] => true
  | m :: ms => isSkippable m.2 && haveSkippable ms

end

/-! ## Values -/

mutual

/-- **The value of an outline**, with at most `depth` levels of nesting.  Of members of one name the
last counts. -/
def toJson (depth : Nat) : Outline → Reading Json
  | broken => .error .malformed
  | null => .ok .null
  | bool b => .ok (.bool b)
  | number (some n) => .ok (.number n)
  | number none => .error .malformed
  | string (some s) => .ok (.string s)
  | string none => .error .malformed
  | array items closed =>
    match depth with
    | 0 => .error .malformed
    | depth + 1 =>
      match toJsons depth items with
      | .error e => .error e
      | .ok vs => if closed then .ok (.array vs) else .error .malformed
  | object members closed =>
    match depth with
    | 0 => .error .malformed
    | depth + 1 =>
      match toMembers depth [] members with
      | .error e => .error e
      | .ok ms => if closed then .ok (.object ms) else .error .malformed

/-- The values of a list of outlines. -/
def toJsons (depth : Nat) : List Outline → Reading (List Json)
  | [] => .ok []
  | o :: os =>
    match toJson depth o with
    | .error e => .error e
    | .ok v =>
      match toJsons depth os with
      | .error e => .error e
      | .ok vs => .ok (v :: vs)

/-- The members of an object, sorted by name, added to those already read. -/
def toMembers (depth : Nat) (read : List (String × Json)) :
    List (Option String × Outline) → Reading (List (String × Json))
  | [] => .ok read
  | m :: ms =>
    match m.1 with
    | none => .error .malformed
    | some k =>
      match toJson depth m.2 with
      | .error e => .error e
      | .ok v => toMembers depth (Entries.putSorted k v read) ms

end

mutual

/-- **The outline of a value**: nothing in it is at fault. -/
def ofJson : Json → Outline
  | .null => null
  | .bool b => bool b
  | .number n => number (some n)
  | .string s => string (some s)
  | .array items => array (ofJsons items) true
  | .object members => object (ofMembers members) true

/-- The outlines of a list of values. -/
def ofJsons : List Json → List Outline
  | [] => []
  | v :: vs => ofJson v :: ofJsons vs

/-- The outlines of the members of an object. -/
def ofMembers : List (String × Json) → List (Option String × Outline)
  | [] => []
  | m :: ms => (some m.1, ofJson m.2) :: ofMembers ms

end

/-- The greatest depth of nesting in a value that is read from a text. -/
def maxDepth : Nat := 127

end Outline

end CatalogChain
