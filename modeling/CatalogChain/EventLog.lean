import CatalogChain.Fault

/-!
# The log of events

The log keeps the events of every product in the order of versions, and beside them a register of
all events in the order of recording, which knows for each sequence number the product and the
version of its event (`Place`).  An event is accepted if its product has no event of that version
yet, and gets the next sequence number then (`EventLog.append`).  A question by product is answered
from the histories; a question by sequence number goes through the register to the histories.
-/

namespace CatalogChain

/-- **Where an event is found**: its product and its version. -/
structure Place where
  entityId : String
  version : Int
deriving DecidableEq, Repr

/-- The place of an event. -/
def Event.place (e : Event) : Place := ⟨e.entityId, e.version⟩

/-- The event with a sequence number. -/
def Event.numbered (e : Event) (sequence : Nat) : Event := { e with sequence }

/-- **The log.** -/
structure EventLog where
  /-- The events of each product, in ascending order of versions. -/
  histories : Table (List Event)
  /-- The place of each event under its sequence number, the latest in front. -/
  register : List (Nat × Place)
  /-- The sequence number given last. -/
  lastSequence : Nat

namespace EventLog

/-- The log without events. -/
def empty : EventLog := ⟨.empty, [], 0⟩

instance : Inhabited EventLog := ⟨empty⟩

/-- Puts an event into a history in the order of versions; nothing if the version is there
already. -/
def insertByVersion (e : Event) : List Event → Option (List Event)
  | [] => some [e]
  | h :: hs =>
    if h.version < e.version then (insertByVersion e hs).map (h :: ·)
    else if h.version = e.version then none
    else some (e :: h :: hs)

/-- Enters a place under a sequence number; an earlier entry of the same number is replaced. -/
def enter (sequence : Nat) (place : Place) : List (Nat × Place) → List (Nat × Place)
  | [] => [(sequence, place)]
  | r :: rs =>
    if r.1 < sequence then (sequence, place) :: r :: rs
    else if r.1 = sequence then (sequence, place) :: rs
    else r :: enter sequence place rs

/-- The history of a product. -/
def history (log : EventLog) (id : String) : List Event := (log.histories.get? id).getD []

/-- The event at a place. -/
def find? (log : EventLog) (place : Place) : Option Event :=
  (log.history place.entityId).find? fun e => e.version = place.version

/-- **Recording an event**: the event with its sequence number, or the fault that its version is
recorded already, and the log after it. -/
def append (log : EventLog) (e : Event) : Except Fault Event × EventLog :=
  let recorded := e.numbered (log.lastSequence + 1)
  match insertByVersion recorded (log.history e.entityId) with
  | none => (.error (.duplicateVersion e.entityId e.version), log)
  | some history =>
    (.ok recorded,
      { histories := log.histories.put e.entityId history
        register := enter recorded.sequence recorded.place log.register
        lastSequence := recorded.sequence })

/-! ## Queries -/

/-- The number of events. -/
def count (log : EventLog) : Nat := log.register.length

/-- The events of a product from a version on, in the order of versions. -/
def query (log : EventLog) (id : String) (fromVersion : Int) : List Event :=
  (log.history id).dropWhile fun e => e.version < fromVersion

/-- The event with a sequence number. -/
def bySequence? (log : EventLog) (sequence : Nat) : Option Event :=
  (log.register.find? fun r => r.1 = sequence).bind fun r => log.find? r.2

/-- At most `limit` events behind a sequence number, in the order of recording. -/
def after (log : EventLog) (sequence limit : Nat) : List Event :=
  ((log.register.takeWhile fun r => sequence < r.1).reverse.filterMap fun r =>
    log.find? r.2).take limit

/-- The event of the highest version of a product. -/
def latest? (log : EventLog) (id : String) : Option Event := (log.history id).getLast?

/-- The product as recorded last, and the version of its last event. -/
def latestSnapshot? (log : EventLog) (id : String) : Option (Product × Int) :=
  (log.latest? id).map fun e => (e.snapshot, e.version)

/-- All events in the order of recording. -/
def events (log : EventLog) : List Event := log.after 0 log.count

end EventLog

end CatalogChain
