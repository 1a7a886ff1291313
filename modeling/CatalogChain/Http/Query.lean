import CatalogChain.Json.Record
import CatalogChain.Text.Integer
import CatalogChain.Text.Percent

/-!
# Queries

What a request asks for in its query.  A query has the outline of an object of strings, so that
the same readers take it from a query (`Query.outline`, `Query.readNat`) and from JSON.
-/

namespace CatalogChain

/-! ## The outline of a query -/

namespace Query

/-- The text of a part of a query; one that is not UTF-8 stands for the replacement character, which
no name and no number contains. -/
def partText (s : String) : String := (Text.Percent.decodeForm? s).getD "\uFFFD"

/-- A part with a name and a value, which is empty where no equals sign stands. -/
def pair (cs : List Char) : Option String × Outline :=
  let name := cs.takeWhile (· ≠ '=')
  let value := (cs.dropWhile (· ≠ '=')).drop 1
  (some (partText (String.ofList name)), .string (some (partText (String.ofList value))))

/-- The parts of a query between the ampersands, empty ones left out. -/
def parts : List Char → List Char → List (List Char)
  | part, [] => if part = [] then [] else [part.reverse]
  | part, '&' :: cs => (if part = [] then [] else [part.reverse]) ++ parts [] cs
  | part, c :: cs => parts (c :: part) cs

/-- **The outline of a query.** -/
def outline (query : String) : Outline := .object ((parts [] query.toList).map pair) true

/-- A number of 64 bits written as text. -/
def readNat : Outline → Reading Nat
  | .string (some s) =>
    ((Text.readNat? s.toList).filter (· < twoTo 64)).elim (.error .mistyped) .ok
  | o => .error o.flaw

/-- An integer of 64 bits written as text. -/
def readInt : Outline → Reading Int
  | .string (some s) =>
    let fits := fun n : Int => -(twoTo 63 : Int) ≤ n && n < (twoTo 63 : Int)
    ((Text.readInt? s.toList).filter fits).elim (.error .mistyped) .ok
  | o => .error o.flaw

end Query

/-! ## What can be asked for -/

/-- **A page of the listing**, by its number and size. -/
structure ListQuery where
  page : Nat
  pageSize : Nat
deriving DecidableEq, Repr

/-- A listing asked for with a reader of numbers.  The size has a short name as well. -/
def ListQuery.read (readNat : Outline → Reading Nat) (o : Outline) : Reading ListQuery :=
  readRecord ["page", "page_size"]
    (ListQuery.mk <$> fieldOr "page" 1 readNat <*> fieldOr "page_size" 10 readNat)
    (o.rename "size" "page_size")

/-- **The history of a product** from a version on. -/
structure ReplayQuery where
  fromVersion : Int
deriving DecidableEq, Repr

/-- A history asked for with a reader of integers. -/
def ReplayQuery.read (readInt : Outline → Reading Int) : Outline → Reading ReplayQuery :=
  readRecord ["from_version"] (ReplayQuery.mk <$> fieldOr "from_version" 1 readInt)

/-- **Events** behind a sequence number, at most so many. -/
structure EventsQuery where
  afterSequence : Nat
  limit : Nat
deriving DecidableEq, Repr

/-- Events asked for with a reader of numbers. -/
def EventsQuery.read (readNat : Outline → Reading Nat) : Outline → Reading EventsQuery :=
  readRecord ["after_sequence", "limit"]
    (EventsQuery.mk <$> fieldOr "after_sequence" 0 readNat <*> fieldOr "limit" 50 readNat)

end CatalogChain
