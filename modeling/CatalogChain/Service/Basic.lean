import CatalogChain.EventLog
import CatalogChain.Feed
import CatalogChain.LiveTable
import CatalogChain.Settings
import CatalogChain.Supply

/-!
# The service

A service holds the live table, the log of events, the locks on products and the feed.  What it
answers to a question is read off these (`Service.get`, `Service.replay`); what a write does to
them is the subject of `Service.Call`.
-/

namespace CatalogChain

/-- **A service**: all of its state, its settings, and what it has drawn from its supply. -/
structure Service where
  settings : WriteSettings
  live : LiveTable
  log : EventLog
  locks : LockTable
  feed : Feed
  draws : Draws

namespace Service

/-- A service in which nothing has happened yet. -/
def fresh (settings : WriteSettings) (feed : Feed) : Service :=
  ⟨settings, .empty, .empty, .empty, feed, {}⟩

/-! ## Questions -/

/-- The current value of a product. -/
def get (s : Service) (id : String) : Except Fault Product :=
  match s.live.get? id with
  | some p => .ok p
  | none => .error (.notFound id)

/-- **The history of a product** from a version on, if it is a chain. -/
def replay (s : Service) (id : String) (fromVersion : Int) : Except Fault (List Event) :=
  let events := s.log.query id fromVersion
  match Chain.check events with
  | .ok () => .ok events
  | .error b => .error (.ofBreak b)

/-! ## Drawing -/

/-- The next identifier. -/
def drawUuid (σ : Supply) (s : Service) : Uuid × Service :=
  (σ.uuid s.draws.uuids, { s with draws.uuids := s.draws.uuids + 1 })

/-- The next reading of the clock. -/
def drawReading (σ : Supply) (s : Service) : Instant × Service :=
  (σ.reading s.draws.readings, { s with draws.readings := s.draws.readings + 1 })

/-- The next id for a product. -/
def drawProductId (σ : Supply) (s : Service) : String × Service :=
  (σ.productId s.draws.products, { s with draws.products := s.draws.products + 1 })

/-! ## Events of writes -/

/-- **The event of a new product** with given content. -/
def creation (σ : Supply) (s : Service) (draft : Content) : Event × Service :=
  let (productId, s) := s.drawProductId σ
  let (now, s) := s.drawReading σ
  let (id, s) := s.drawUuid σ
  let (timestamp, s) := s.drawReading σ
  (.created id timestamp (.ofContent productId draft now), s)

/-- **The event of an update** of a product to a candidate: of the candidate only the id and the
content count, all else follows from the current value. -/
def revision (σ : Supply) (s : Service) (current candidate : Product) : Event × Service :=
  let (now, s) := s.drawReading σ
  let next := { candidate with createdAt := current.createdAt, updatedAt := now }.bump
  let (id, s) := s.drawUuid σ
  let (timestamp, s) := s.drawReading σ
  (.updated id timestamp next current.fingerprint (current.content.changesTo next.content), s)

/-- **The event of a deletion** of a product. -/
def deletion (σ : Supply) (s : Service) (current : Product) : Event × Service :=
  let (id, s) := s.drawUuid σ
  let (timestamp, s) := s.drawReading σ
  (.deleted id timestamp current, s)

end Service

end CatalogChain
