import CatalogChain.Binary64.Basic
import CatalogChain.Binary64.Shortest
import CatalogChain.Context
import CatalogChain.Decimal.Basic
import CatalogChain.Decimal.Reader
import CatalogChain.Event.Basic
import CatalogChain.Event.Chain
import CatalogChain.Event.Codec
import CatalogChain.Event.Page
import CatalogChain.EventLog
import CatalogChain.Fault
import CatalogChain.Feed
import CatalogChain.Http.Body
import CatalogChain.Http.Header
import CatalogChain.Http.MediaType
import CatalogChain.Http.Query
import CatalogChain.Http.Route
import CatalogChain.Http.Server
import CatalogChain.Http.Target
import CatalogChain.Instant.Basic
import CatalogChain.Instant.Printer
import CatalogChain.Instant.Reader
import CatalogChain.Json.Basic
import CatalogChain.Json.Outline
import CatalogChain.Json.Reader
import CatalogChain.Json.Record
import CatalogChain.Json.Writer
import CatalogChain.LiveTable
import CatalogChain.LockTable
import CatalogChain.Power
import CatalogChain.Product.Basic
import CatalogChain.Product.Codec
import CatalogChain.Product.Diff
import CatalogChain.Product.Fingerprint
import CatalogChain.Product.Validation
import CatalogChain.Proofs.Decimal.Normal
import CatalogChain.Proofs.Decimal.Reading
import CatalogChain.Proofs.Event.Breaks
import CatalogChain.Proofs.Event.Encoding
import CatalogChain.Proofs.Event.Life
import CatalogChain.Proofs.Event.Linked
import CatalogChain.Proofs.Event.Tampering
import CatalogChain.Proofs.EventLog.Paging
import CatalogChain.Proofs.EventLog.Queries
import CatalogChain.Proofs.EventLog.Recording
import CatalogChain.Proofs.Feed.Reading
import CatalogChain.Proofs.Instant.Reading
import CatalogChain.Proofs.Json.Accepted
import CatalogChain.Proofs.Json.Encoding
import CatalogChain.Proofs.Json.Order
import CatalogChain.Proofs.Json.Record
import CatalogChain.Proofs.Json.Scalars
import CatalogChain.Proofs.Json.Text
import CatalogChain.Proofs.Json.Values
import CatalogChain.Proofs.LiveTable.Listing
import CatalogChain.Proofs.LockTable.Exclusive
import CatalogChain.Proofs.LockTable.Leftovers
import CatalogChain.Proofs.LockTable.Runs
import CatalogChain.Proofs.LockTable.Sweeping
import CatalogChain.Proofs.LockTable.Tended
import CatalogChain.Proofs.LockTable.Upkeep
import CatalogChain.Proofs.Product.Bounds
import CatalogChain.Proofs.Product.Canonical
import CatalogChain.Proofs.Product.Codec
import CatalogChain.Proofs.Product.Encoding
import CatalogChain.Proofs.Product.Patch
import CatalogChain.Proofs.Product.Same
import CatalogChain.Proofs.Product.Validation
import CatalogChain.Proofs.Service.Agreement
import CatalogChain.Proofs.Service.AllOrNothing
import CatalogChain.Proofs.Service.Attempts
import CatalogChain.Proofs.Service.Batches
import CatalogChain.Proofs.Service.Breaking
import CatalogChain.Proofs.Service.Commits
import CatalogChain.Proofs.Service.Commuting
import CatalogChain.Proofs.Service.Completion
import CatalogChain.Proofs.Service.Crews
import CatalogChain.Proofs.Service.Deeds
import CatalogChain.Proofs.Service.Direct
import CatalogChain.Proofs.Service.Encoding
import CatalogChain.Proofs.Service.Endurance
import CatalogChain.Proofs.Service.Evidence
import CatalogChain.Proofs.Service.History
import CatalogChain.Proofs.Service.Impartial
import CatalogChain.Proofs.Service.Invariants
import CatalogChain.Proofs.Service.Lineup
import CatalogChain.Proofs.Service.Listeners
import CatalogChain.Proofs.Service.Moves
import CatalogChain.Proofs.Service.NoLostUpdate
import CatalogChain.Proofs.Service.Outcomes
import CatalogChain.Proofs.Service.Rebuild
import CatalogChain.Proofs.Service.Retries
import CatalogChain.Proofs.Service.Runs
import CatalogChain.Proofs.Service.Seniority
import CatalogChain.Proofs.Service.Serial
import CatalogChain.Proofs.Service.Single
import CatalogChain.Proofs.Service.Successes
import CatalogChain.Proofs.Service.Veil
import CatalogChain.Proofs.Service.World
import CatalogChain.Proofs.Settings.Limits
import CatalogChain.Proofs.Settings.Reading
import CatalogChain.Service.Basic
import CatalogChain.Service.Batch
import CatalogChain.Service.Call
import CatalogChain.Service.Crew
import CatalogChain.Service.Deployment
import CatalogChain.Settings
import CatalogChain.Sha256
import CatalogChain.Supply
import CatalogChain.Sweeper
import CatalogChain.Table
import CatalogChain.Text.Blank
import CatalogChain.Text.Hex
import CatalogChain.Text.Integer
import CatalogChain.Text.Percent
import CatalogChain.Timer
import CatalogChain.Uuid
