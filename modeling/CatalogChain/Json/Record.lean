import CatalogChain.Json.Outline

/-!
# Reading records

A record is written as an object of named members or as an array of its fields in their declared
order.  `readRecord` takes a record from an outline, given the declared names and a reader of the
fields (`Fields`), which is built with `<$>` and `<*>` from `field`, `fieldOr` and `field?`:

* members of other names are skipped, a name given twice is a fault;
* a missing field is a fault unless it has a default (`fieldOr`) or may be missing (`field?`);
* of several faults the first in the order of the text is reported, wherever the field that has it
  stands in the declaration.
-/

namespace CatalogChain

/-- A flaw with the place where it shows: the number of members or items in front of it. -/
abbrev Flaw.Located := Nat × Flaw

/-- The earlier of two flaws; of two in one place the first one given. -/
def Flaw.earlier (a b : Flaw.Located) : Flaw.Located := if b.1 < a.1 then b else a

/-- **The fields found in an outline.** -/
structure Record where
  /-- The fields with their names and places. -/
  entries : List (String × Nat × Outline)
  /-- Whether the fields were given by place and not by name. -/
  positional : Bool
  /-- The number of members or items. -/
  size : Nat
  /-- The first flaw that lies outside the values of the fields. -/
  fault : Option Flaw.Located

namespace Record

/-- Collects the members of declared names up to the first fault, from place `i` on. -/
def ofMembers (names : List String) (closed : Bool) (i : Nat)
    (found : List (String × Nat × Outline)) : List (Option String × Outline) → Record
  | [] =>
    { entries := found, positional := false, size := i
      fault := if closed then none else some (i, .malformed) }
  | m :: ms =>
    let stop := fun flaw : Flaw =>
      { entries := found, positional := false, size := i + ms.length + 1
        fault := some (i, flaw) : Record }
    match m.1 with
    | none => stop .malformed
    | some name =>
      if names.contains name then
        if (Entries.get? name found).isSome then stop .mistyped
        else ofMembers names closed (i + 1) (found ++ [(name, i, m.2)]) ms
      else if m.2.isSkippable then ofMembers names closed (i + 1) found ms
      else stop .malformed

/-- Takes the items of an array for the declared names in order. -/
def ofItems (names : List String) (closed : Bool) (items : List Outline) : Record where
  entries := (names.zip items).mapIdx fun i entry => (entry.1, i, entry.2)
  positional := true
  size := items.length
  fault :=
    if names.length < items.length then some (names.length, .malformed)
    else if closed then none
    else some (items.length, .malformed)

/-- The fields in an outline of an object or an array. -/
def ofOutline (names : List String) : Outline → Reading Record
  | .object members closed => .ok (ofMembers names closed 0 [] members)
  | .array items closed => .ok (ofItems names closed items)
  | o => .error o.flaw

/-- A missing field shows behind all others. -/
def missing (r : Record) : Flaw.Located := (r.size + 1, .mistyped)

end Record

/-- **A reader of fields.** -/
def Fields (α : Type) : Type := Record → Except Flaw.Located α

namespace Fields

instance : Applicative Fields where
  pure a := fun _ => .ok a
  seq f x := fun r =>
    match f r, x () r with
    | .ok g, .ok a => .ok (g a)
    | .ok _, .error e => .error e
    | .error e, .ok _ => .error e
    | .error e, .error e' => .error (Flaw.earlier e e')

/-- Reads the value of a field in its place. -/
def at' {α : Type} (read : Outline → Reading α) (place : Nat × Outline) :
    Except Flaw.Located α :=
  match read place.2 with
  | .ok a => .ok a
  | .error flaw => .error (place.1, flaw)

end Fields

/-- A field that must be given. -/
def field {α : Type} (name : String) (read : Outline → Reading α) : Fields α := fun r =>
  match Entries.get? name r.entries with
  | some place => Fields.at' read place
  | none => .error r.missing

/-- A field with a default. -/
def fieldOr {α : Type} (name : String) (default : α) (read : Outline → Reading α) : Fields α :=
  fun r =>
    match Entries.get? name r.entries with
    | some place => Fields.at' read place
    | none => .ok default

/-- A field that may be `null` or, in an object, missing. -/
def field? {α : Type} (name : String) (read : Outline → Reading α) : Fields (Option α) := fun r =>
  match Entries.get? name r.entries with
  | some (_, .null) => .ok none
  | some place => Fields.at' (fun o => some <$> read o) place
  | none => if r.positional then .error r.missing else .ok none

/-- **Reading a record** with declared names. -/
def readRecord {α : Type} (names : List String) (fields : Fields α) (o : Outline) : Reading α :=
  match Record.ofOutline names o with
  | .error flaw => .error flaw
  | .ok r =>
    match fields r, r.fault with
    | .ok a, none => .ok a
    | .ok _, some e => .error e.2
    | .error e, none => .error e.2
    | .error e, some e' => .error (Flaw.earlier e' e).2

/-! ## Readers of single values -/

namespace Outline

/-- A text. -/
def readText : Outline → Reading String
  | string (some s) => .ok s
  | o => .error o.flaw

/-- A truth value. -/
def readBool : Outline → Reading Bool
  | bool b => .ok b
  | o => .error o.flaw

/-- An integer between two bounds, the upper one excluded. -/
def readIntBetween (low high : Int) : Outline → Reading Int
  | number (some (.integer n)) => if low ≤ n ∧ n < high then .ok n else .error .mistyped
  | o => .error o.flaw

/-- A signed integer of 64 bits. -/
def readInt64 : Outline → Reading Int :=
  readIntBetween (-(twoTo 63 : Int)) (twoTo 63)

/-- An unsigned integer of 64 bits. -/
def readNat64 (o : Outline) : Reading Nat :=
  Int.toNat <$> readIntBetween 0 (twoTo 64) o

/-- The values of a list of items, up to the first flaw. -/
def readAll {α : Type} (read : Outline → Reading α) : List Outline → Reading (List α)
  | [] => .ok []
  | o :: os =>
    match read o with
    | .error e => .error e
    | .ok a =>
      match readAll read os with
      | .error e => .error e
      | .ok as => .ok (a :: as)

/-- A list. -/
def readList {α : Type} (read : Outline → Reading α) : Outline → Reading (List α)
  | array items closed =>
    match readAll read items with
    | .error e => .error e
    | .ok as => if closed then .ok as else .error .malformed
  | o => .error o.flaw

/-- The entries of an object, up to the first flaw. -/
def readEntries {α : Type} (read : Outline → Reading α) (table : SortedTable α) :
    List (Option String × Outline) → Reading (SortedTable α)
  | [] => .ok table
  | m :: ms =>
    match m.1 with
    | none => .error .malformed
    | some key =>
      match read m.2 with
      | .error e => .error e
      | .ok a => readEntries read (table.put key a) ms

/-- A sorted table from an object; of a name given twice the last value stays. -/
def readTable {α : Type} (read : Outline → Reading α) : Outline → Reading (SortedTable α)
  | object members closed =>
    match readEntries read .empty members with
    | .error e => .error e
    | .ok table => if closed then .ok table else .error .malformed
  | o => .error o.flaw

/-- Renames members of an object. -/
def rename (old new : String) : Outline → Outline
  | object members closed =>
    object (members.map fun m => (if m.1 = some old then some new else m.1, m.2)) closed
  | o => o

end Outline

end CatalogChain
