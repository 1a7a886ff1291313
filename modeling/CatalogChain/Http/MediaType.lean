import CatalogChain.Http.Header

/-!
# Media types

A body is taken for JSON if its media type is `application/json`, whatever its parameters, or has
the suffix `+json`.  Letters count in either case.  A media type that is not well formed is none.
-/

namespace CatalogChain.Http.MediaType

/-- Skips what may stand behind a quoted value, up to the next parameter. -/
def skipBlank : List Char → Option (List Char)
  | [] => some []
  | ';' :: cs => some cs
  | ' ' :: cs => skipBlank cs
  | _ => none

/-- Skips a quoted value behind its opening quote; `any` says whether a character has been
skipped. -/
def skipQuoted (any : Bool) : List Char → Option (List Char)
  | [] => none
  | c :: cs =>
    if c = '"' ∧ any then skipBlank cs
    else if 0x20 ≤ c.toNat ∧ c.toNat ≠ 0x7f then skipQuoted true cs
    else none

/-- Skips a parameter with its value. -/
def skipParameter (cs : List Char) : Option (List Char) :=
  if cs.head? = some '=' then none
  else
    match cs.dropWhile isTokenChar with
    | '=' :: '"' :: cs => skipQuoted false cs
    | '=' :: cs =>
      match cs.dropWhile isTokenChar with
      | [] => some []
      | ';' :: rest => if cs.head? = some ';' then none else some rest
      | _ => none
    | _ => none

/-- Whether parameters are well formed; each of at most `n` rounds skips a space or a parameter. -/
def areParameters : (n : Nat) → List Char → Bool
  | _, [] => true
  | 0, _ => false
  | n + 1, ' ' :: cs => areParameters n cs
  | n + 1, cs => (skipParameter cs).any (areParameters n)

/-- **Whether a media type stands for JSON.** -/
def isJson (s : String) : Bool :=
  let cs := s.toList.map Char.toLower
  let main := cs.takeWhile isTokenChar
  match cs.dropWhile isTokenChar with
  | '/' :: cs =>
    let sub := cs.takeWhile isTokenChar
    let rest := cs.dropWhile isTokenChar
    -- the suffix begins at the last plus sign that is not the first character
    let suffix := (sub.drop 1).reverse.takeWhile (· ≠ '+')
    let hasSuffix := (sub.drop 1).contains '+'
    let base := if hasSuffix then sub.take (sub.length - suffix.length - 1) else sub
    let wellFormed :=
      match rest with
      | [] => true
      | c :: rest => sub ≠ [] && c = ';' && areParameters (rest.length + 1) rest
    main = "application".toList && wellFormed &&
      (base = "json".toList || (hasSuffix && suffix.reverse = "json".toList))
  | _ => false

end CatalogChain.Http.MediaType
