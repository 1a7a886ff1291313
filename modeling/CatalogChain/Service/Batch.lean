import CatalogChain.Json.Record
import CatalogChain.Service.Crew

/-!
# Batches

A batch is a list of writes of one kind, worked through by a crew of as many places as the
settings allow. Every write has its own result; one that fails does not keep the others from
succeeding.
-/

namespace CatalogChain

/-- **The result of one write** of a batch: its product, and its version or what went wrong. -/
structure BatchResult where
  id : String
  success : Bool
  version : Option Int
  error : Option String
deriving DecidableEq, Repr, Inhabited

namespace BatchResult

/-- The result of a write that has succeeded. -/
def succeeded (id : String) (version : Int) : BatchResult := ⟨id, true, some version, none⟩

/-- The result of a write that has failed. -/
def failed (id : String) (fault : Fault) : BatchResult := ⟨id, false, none, some fault.text⟩

/-- The result of a write that has broken off.  Its text is the beginning of what is reported: what
the write broke off from is to be appended, behind a colon. -/
def broken (id : String) : BatchResult := ⟨id, false, none, some "worker failed"⟩

/-- **The result of a write** with its outcome.  A product that was not created has no id. -/
def ofOutcome (request : Request) : Option Outcome → BatchResult
  | none => broken request.target
  | some (.error fault) => failed request.target fault
  | some (.ok event) =>
    match request with
    | .create _ => succeeded event.entityId event.version
    | _ => succeeded request.target event.version

/-- The fields of a result in their declared order. -/
def names : List String := ["id", "success", "version", "error"]

/-- A result as an object; what is missing is left out. -/
def toJson (r : BatchResult) : Json :=
  .object <| ("id", .string r.id) :: ("success", .bool r.success) ::
    (Json.member? "version" .int r.version ++ Json.member? "error" .string r.error)

/-- A result from its fields. -/
def read : Outline → Reading BatchResult :=
  readRecord names <|
    BatchResult.mk <$> field "id" Outline.readText <*> field "success" Outline.readBool
      <*> field? "version" Outline.readInt64 <*> field? "error" Outline.readText

/-- The number of writes that have succeeded. -/
def successCount (rs : List BatchResult) : Nat := rs.countP (·.success)

end BatchResult

/-- The number of places of a crew for a batch. -/
def WriteSettings.places (s : WriteSettings) : Nat := max 1 s.concurrency

/-- Works through a batch whatever the number of places. -/
def Deployment.performBatch (σ : Supply) (d : Deployment) (cancellation : Cancellation)
    (requests : List Request) : List BatchResult × Deployment :=
  let (outcomes, d) := d.performAll σ cancellation d.service.settings.places requests
  (List.zipWith BatchResult.ofOutcome requests outcomes, d)

/-- **Works through a batch**, unless the settings ask for more places than a crew can have. -/
def Deployment.performBatch? (σ : Supply) (d : Deployment) (cancellation : Cancellation)
    (requests : List Request) : Option (List BatchResult × Deployment) :=
  if d.service.settings.places ≤ Crew.maxPlaces then
    some (d.performBatch σ cancellation requests)
  else none

/-- **The report on a batch**: the results and how many of either sort there are. -/
structure BatchReport where
  results : List BatchResult
  succeeded : Nat
  failed : Nat
deriving DecidableEq, Repr, Inhabited

namespace BatchReport

/-- The report on results. -/
def ofResults (rs : List BatchResult) : BatchReport :=
  let succeeded := BatchResult.successCount rs
  ⟨rs, succeeded, rs.length - succeeded⟩

/-- The fields of a report in their declared order. -/
def names : List String := ["results", "succeeded", "failed"]

/-- A report as an object. -/
def toJson (r : BatchReport) : Json :=
  .object [
    ("results", .list BatchResult.toJson r.results),
    ("succeeded", .nat r.succeeded),
    ("failed", .nat r.failed)]

/-- A report from its fields. -/
def read : Outline → Reading BatchReport :=
  readRecord names <|
    BatchReport.mk <$> field "results" (Outline.readList BatchResult.read)
      <*> field "succeeded" Outline.readNat64 <*> field "failed" Outline.readNat64

end BatchReport

end CatalogChain
