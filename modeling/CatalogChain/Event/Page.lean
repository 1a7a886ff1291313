import CatalogChain.Event.Codec
import CatalogChain.EventLog

/-!
# Pages of events

A reader of all events takes them page by page: it asks for the events behind the last sequence
number that it has seen.
-/

namespace CatalogChain

/-- **A page of events** and the sequence number of the last one. -/
structure EventPage where
  events : List Event
  lastSequence : Option Nat

/-- The most events on a page. -/
def EventPage.maxSize : Nat := 1000

/-- **The page behind a sequence number**, with at least one event if there are any and at most
`EventPage.maxSize`. -/
def EventLog.page (log : EventLog) (sequence limit : Nat) : EventPage :=
  let events := log.after sequence (max 1 (min limit EventPage.maxSize))
  ⟨events, events.getLast?.map (·.sequence)⟩

namespace EventPage

/-- The fields of a page in their declared order. -/
def names : List String := ["events", "last_sequence"]

/-- A page as an object. -/
def toJson (p : EventPage) : Json :=
  .object [("events", .list Event.toJson p.events), ("last_sequence", .option .nat p.lastSequence)]

/-- A page from its fields, with at most `depth` levels of nesting. -/
def read (depth : Nat) : Outline → Reading EventPage :=
  readRecord names <|
    EventPage.mk <$> field "events" (Outline.readList (Event.read (depth - 2)))
      <*> field? "last_sequence" Outline.readNat64

end EventPage

end CatalogChain
