import CatalogChain.Event.Page
import CatalogChain.Http.Body
import CatalogChain.Http.Query
import CatalogChain.Http.Route
import CatalogChain.Http.Target
import CatalogChain.Service.Batch

/-!
# The server

`Server.handle?` answers one request to a deployment: it finds the resource of the path, reads what
the method needs from path, query and body in this order, asks the service, and writes the answer.
Each request gets an identifier unless it brings one, and each request for a resource other than
the health check a correlation identifier.

There is no response, and so no value, where a batch asks for more places than a crew can have or
a single write breaks off.
-/

namespace CatalogChain.Http

/-- **A request**: its method, its target, its headers and its body. -/
structure HttpRequest where
  method : String
  target : Target
  headers : Headers
  body : String

/-- **A response**: its status, the identifiers that it echoes, and its body. -/
structure HttpResponse where
  status : Nat
  requestId : Header
  correlationId : Option Uuid
  body : Body

/-- A status with a body. -/
abbrev Answer := Nat × Body

namespace Answer

/-- The answer to a request that has failed. -/
def ofFault (f : Fault) : Answer := (f.status, .json f.toJson)

/-- The answer to a request for nothing that is known. -/
def notFound : Answer := (404, .empty)

/-- The answer to a method that a resource does not have. -/
def notAllowed : Answer := (405, .empty)

/-- The answer to a query that cannot be read. -/
def badQuery : Answer := (400, .text "Failed to deserialize query string")

/-- The answer to a path whose id is not UTF-8. -/
def badPath : Answer := (400, .text "Invalid URL: Invalid UTF-8 in `id`")

end Answer

namespace Server

/-- An answer to a read body, or the fault of one that is refused. -/
def withBody {α : Type} (r : HttpRequest) (d : Deployment) (read : Outline → Reading α)
    (answer : α → Option (Answer × Deployment)) : Option (Answer × Deployment) :=
  match readBody read r.headers r.body with
  | .ok a => answer a
  | .error f => some (.ofFault f.fault, d)

/-- An answer to a read query, or the refusal of it. -/
def withQuery {α : Type} (r : HttpRequest) (read : Outline → Reading α) (answer : α → Answer) :
    Answer :=
  match read (Query.outline r.target.query) with
  | .ok a => answer a
  | .error _ => .badQuery

/-- The answer to a single write. -/
def write? (σ : Supply) (d : Deployment) (request : Request) (success : Event → Answer) :
    Option (Answer × Deployment) := do
  let (outcome, d) ← d.perform? σ .never request
  match outcome with
  | .ok event => return (success event, d)
  | .error f => return (.ofFault f, d)

/-- The answer to a batch. -/
def batch? (σ : Supply) (d : Deployment) (requests : List Request) :
    Option (Answer × Deployment) := do
  let (results, d) ← d.performBatch? σ .never requests
  return ((200, .json (BatchReport.ofResults results).toJson), d)

/-- The answer to an update of the product of a path.  A body without an id gets that of the path,
and one with another id is refused. -/
def update? (σ : Supply) (d : Deployment) (id : String) (candidate : Product) :
    Option (Answer × Deployment) :=
  if candidate.id ≠ "" ∧ candidate.id ≠ id then
    let text := "Body id " ++ candidate.id ++ " does not match path id " ++ id
    some (.ofFault (.invalidRequest text), d)
  else
    write? σ d (.update { candidate with id }) fun event => (200, .json event.snapshot.toJson)

/-- The answer to a request for a listing. -/
def list (d : Deployment) (r : HttpRequest) : Answer :=
  withQuery r (ListQuery.read Query.readNat) fun q =>
    (200, .json ((d.service.live.page q.page q.pageSize).toJson Product.toJson))

/-- The answer to a request for a product. -/
def get (d : Deployment) (id : String) : Answer :=
  match d.service.get id with
  | .ok p => (200, .json p.toJson)
  | .error f => .ofFault f

/-- The answer to a request for the history of a product. -/
def history (d : Deployment) (r : HttpRequest) (id : String) : Answer :=
  withQuery r (ReplayQuery.read Query.readInt) fun q =>
    match d.service.replay id q.fromVersion with
    | .ok events => (200, .json (.list Event.toJson events))
    | .error f => .ofFault f

/-- The answer to a request for a page of events. -/
def events (d : Deployment) (r : HttpRequest) : Answer :=
  withQuery r (EventsQuery.read Query.readNat) fun q =>
    (200, .json (d.service.log.page q.afterSequence q.limit).toJson)

/-- **The answer to a method on a resource.** -/
def answer? (σ : Supply) (d : Deployment) (r : HttpRequest) (method : String) :
    Resource → Option (Answer × Deployment)
  | .health => some (if method = "GET" then (200, .text "OK") else .notAllowed, d)
  | .products =>
    if method = "GET" then some (list d r, d)
    else if method = "POST" then
      withBody r d Content.read fun draft =>
        write? σ d (.create draft) fun event => (201, .json event.snapshot.toJson)
    else some (.notAllowed, d)
  | .batch =>
    if method = "POST" then
      withBody r d (Outline.readList Content.read) fun ds => batch? σ d (ds.map .create)
    else if method = "PUT" then
      withBody r d (Outline.readList Product.read) fun ps => batch? σ d (ps.map .update)
    else if method = "DELETE" then
      withBody r d (Outline.readList Outline.readText) fun ids => batch? σ d (ids.map .remove)
    else some (.notAllowed, d)
  | .product id =>
    if ¬ ["GET", "PUT", "DELETE"].contains method then some (.notAllowed, d)
    else
      match Text.Percent.decode? id with
      | none => some (.badPath, d)
      | some id =>
        if method = "GET" then some (get d id, d)
        else if method = "PUT" then withBody r d Product.read fun p => update? σ d id p
        else write? σ d (.remove id) fun _ => (204, .empty)
  | .history id =>
    if method ≠ "GET" then some (.notAllowed, d)
    else
      match Text.Percent.decode? id with
      | none => some (.badPath, d)
      | some id => some (history d r id, d)
  | .events => some (if method = "GET" then events d r else .notAllowed, d)

/-- The header that identifies a request: the one that it brings, or a new one. -/
def identify (σ : Supply) (d : Deployment) (headers : Headers) : Header × Deployment :=
  match headers.get? Headers.requestName with
  | some h => (h, d)
  | none =>
    let (id, service) := d.service.drawUuid σ
    (⟨Headers.requestName, Text.utf8 id.text⟩, { d with service })

/-- The identifier that correlates a request with others: the one that it brings, or a new one. -/
def correlate (σ : Supply) (d : Deployment) (headers : Headers) : Uuid × Deployment :=
  match headers.correlationId? with
  | some id => (id, d)
  | none =>
    let (id, service) := d.service.drawUuid σ
    (id, { d with service })

/-- **Handles a request.**  A HEAD request is a GET request whose answer has no body. -/
def handle? (σ : Supply) (d : Deployment) (r : HttpRequest) : Option (HttpResponse × Deployment) :=
  let (requestId, d) := identify σ d r.headers
  let headers := r.headers ++ [requestId]
  if r.method = "OPTIONS" then some (⟨200, requestId, none, .empty⟩, d)
  else
    let method := if r.method = "HEAD" then "GET" else r.method
    match Resource.ofPath? r.target.path with
    | none => some (⟨Answer.notFound.1, requestId, none, Answer.notFound.2⟩, d)
    | some resource =>
      let (correlationId, d) : Option Uuid × Deployment :=
        if resource.isCorrelated then
          let (id, d) := correlate σ d headers
          (some id, d)
        else (none, d)
      (answer? σ d r method resource).map fun ((status, body), d) =>
        (⟨status, requestId, correlationId, if r.method = "HEAD" then .empty else body⟩, d)

end Server

end CatalogChain.Http
