/-!
# Targets of requests

A request is directed at a path, perhaps with a query.  Its target is written as these alone, as in
`/a/b?c=d`, or as a full address, as in `https://host:80/a/b?c=d`, in which scheme and host do not
count.  What stands behind a number sign never counts.
-/

namespace CatalogChain.Http

/-- **A target**: a path and a query, which is empty where there is none. -/
structure Target where
  path : String
  query : String
deriving DecidableEq, Repr, Inhabited

namespace Target

/-- Whether a scheme may hold a character. -/
def isSchemeChar (c : Char) : Bool := c.isAlphanum || "+-.".toList.contains c

/-- Whether a character ends the host of an address. -/
def endsHost (c : Char) : Bool := c = '/' || c = '?' || c = '#'

/-- An address without its scheme and its host; one without a path has the path `/`. -/
def withoutHost (cs : List Char) : List Char :=
  match cs.dropWhile isSchemeChar with
  | ':' :: '/' :: '/' :: cs =>
    let rest := cs.dropWhile fun c => !endsHost c
    if rest.head? = some '/' then rest else '/' :: rest
  | _ => cs

/-- **The target that a text names.** -/
def ofText (text : String) : Target :=
  let cs := (withoutHost text.toList).takeWhile (· ≠ '#')
  ⟨String.ofList (cs.takeWhile (· ≠ '?')), String.ofList ((cs.dropWhile (· ≠ '?')).drop 1)⟩

end Target

end CatalogChain.Http
