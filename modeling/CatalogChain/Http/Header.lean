import CatalogChain.Text.Blank
import CatalogChain.Uuid

/-!
# Headers

A header has a name, which is a token in lower case, and a value, which is a string of bytes
without control characters.  A value is visible if all its bytes are ASCII.
-/

namespace CatalogChain.Http

/-- Whether a character may stand in a token. -/
def isTokenChar (c : Char) : Bool :=
  c.isAlphanum || "!#$%&'*+-.^_\x60|~".toList.contains c

/-- **A header.** -/
structure Header where
  name : String
  value : List UInt8
deriving DecidableEq, Inhabited

/-- Why a header is refused. -/
inductive HeaderFlaw where
  | name
  | value
deriving DecidableEq, Repr

/-- Whether a byte may stand in a value. -/
def isValueByte (b : UInt8) : Bool := (0x20 ≤ b && b ≠ 0x7f) || b = 0x09

/-- Whether a byte of a value is visible. -/
def isVisibleByte (b : UInt8) : Bool := (0x20 ≤ b && b < 0x7f) || b = 0x09

/-- **A header from a name and the bytes of a value.** -/
def Header.make (name : String) (value : List UInt8) : Except HeaderFlaw Header :=
  if name = "" ∨ ¬ name.toList.all isTokenChar then .error .name
  else if ¬ value.all isValueByte then .error .value
  else .ok ⟨name.map Char.toLower, value⟩

/-- The value of a header, if it is visible. -/
def Header.text? (h : Header) : Option String :=
  if h.value.all isVisibleByte then
    some (String.ofList (h.value.map fun b => Char.ofNat b.toNat))
  else none

/-- **The headers** of a request or a response. -/
abbrev Headers := List Header

namespace Headers

/-- The first header of a name. -/
def get? (hs : Headers) (name : String) : Option Header := List.find? (fun h => h.name = name) hs

/-- The name of the header that a client sends to correlate requests. -/
def correlationName : String := "x-correlation-id"

/-- The name of the header that identifies a request. -/
def requestName : String := "x-request-id"

/-- The identifier in the first header of a name. -/
def uuid? (hs : Headers) (name : String) : Option Uuid := do
  let text ← (← hs.get? name).text?
  Uuid.read? (String.ofList (Text.trim text.toList))

/-- **The correlation identifier** of a request: the one it is sent with, else that of the request
itself. -/
def correlationId? (hs : Headers) : Option Uuid :=
  hs.uuid? correlationName <|> hs.uuid? requestName

/-! ## Logging -/

/-- The names of headers whose values are secret. -/
def secretNames : List String := ["x-api-key", "authorization", "cookie", "set-cookie"]

/-- The value of a header as it may be logged. -/
def loggedValue (h : Header) : String :=
  if secretNames.contains h.name then "[REDACTED]" else h.text?.getD "[invalid utf8]"

/-- **The headers as they may be logged**, in the order of names and values. -/
def logged (hs : Headers) : List (String × String) :=
  let entries := List.map (fun h => (h.name, loggedValue h)) hs
  entries.mergeSort fun a b => a.1 < b.1 || (a.1 = b.1 && a.2 ≤ b.2)

end Headers

end CatalogChain.Http
