import CatalogChain.Fault
import CatalogChain.Http.MediaType
import CatalogChain.Json.Reader
import CatalogChain.Text.Percent

/-!
# Bodies

A body in JSON is accepted if its media type says so and it is not too large; it is then read up
to the end of the value that it begins with.
-/

namespace CatalogChain.Http

/-- **The body of a response.** -/
inductive Body where
  | empty
  | text (s : String)
  | json (v : Json)
deriving Inhabited

/-- The greatest number of bytes in a body. -/
def maxBodySize : Nat := 2 * 1024 * 1024

/-- Why a body is refused. -/
inductive BodyFlaw where
  | notJson
  | tooLarge
  | flaw (f : Flaw)
deriving DecidableEq, Repr

/-- The reason to refuse a body, in words. -/
def BodyFlaw.text : BodyFlaw → String
  | notJson => "Expected request with `Content-Type: application/json`"
  | tooLarge => "Failed to buffer the request body"
  | flaw .malformed => "Failed to parse the request body as JSON"
  | flaw .mistyped => "Failed to deserialize the JSON body into the target type"

/-- The fault of a refused body. -/
def BodyFlaw.fault (f : BodyFlaw) : Fault := .invalidRequest f.text

/-- **Reads a body** with given headers as JSON of a certain type. -/
def readBody {α : Type} (read : Outline → Reading α) (headers : Headers) (body : String) :
    Except BodyFlaw α :=
  if ¬ ((headers.get? "content-type").bind Header.text?).any MediaType.isJson then .error .notJson
  else if maxBodySize < body.utf8ByteSize then .error .tooLarge
  else
    match read (Outline.read body).1 with
    | .ok a => .ok a
    | .error f => .error (.flaw f)

end CatalogChain.Http
