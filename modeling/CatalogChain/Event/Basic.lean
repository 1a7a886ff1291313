import CatalogChain.Product.Diff
import CatalogChain.Product.Fingerprint
import CatalogChain.Uuid

/-!
# Events

An event records one version of one product: that it was created, updated or deleted, with the
product as it was then.  An update and a deletion also record the fingerprint of the product
before, which links the event to its predecessor.
-/

namespace CatalogChain

/-- **The kinds of events.** -/
inductive EventKind where
  | created
  | updated
  | deleted
deriving DecidableEq, Repr, Inhabited

namespace EventKind

/-- All kinds. -/
def all : List EventKind := [created, updated, deleted]

/-- The name of a kind as an action. -/
def action : EventKind → String
  | created => "created"
  | updated => "updated"
  | deleted => "deleted"

/-- The name of a kind as a topic to subscribe to. -/
def topic (k : EventKind) : String := "product." ++ k.action

/-- The kind of a topic. -/
def ofTopic? (s : String) : Option EventKind := all.find? fun k => k.topic = s

end EventKind

/-- **What an event records.** -/
inductive Payload where
  /-- The first version of a product. -/
  | created (snapshot : Product)
  /-- A later version, the fingerprint before it, and the fields that changed. -/
  | updated (snapshot : Product) (previous : String) (changes : List FieldChange)
  /-- The last version of a product that is no more, and its fingerprint. -/
  | deleted (snapshot : Product) (previous : String)
deriving Inhabited

namespace Payload

/-- The kind of event. -/
def kind : Payload → EventKind
  | created _ => .created
  | updated .. => .updated
  | deleted .. => .deleted

/-- The product as recorded. -/
def snapshot : Payload → Product
  | created p => p
  | updated p _ _ => p
  | deleted p _ => p

/-- The fingerprint of the product before the event, empty for a new product. -/
def previous : Payload → String
  | created _ => ""
  | updated _ h _ => h
  | deleted _ h => h

/-- The changes of an update, and of other events none. -/
def changes : Payload → List FieldChange
  | updated _ _ cs => cs
  | _ => []

/-- Whether the event begins a history. -/
def isCreation (p : Payload) : Bool := p.kind = .created

end Payload

/-- **An event.**  `sequence` is its place among all events, and 0 as long as it is not recorded. -/
structure Event where
  id : Uuid
  entityId : String
  version : Int
  sequence : Nat
  timestamp : Instant
  payload : Payload
deriving Inhabited

namespace Event

variable (id : Uuid) (now : Instant)

/-- The event that begins the history of a product. -/
def created (p : Product) : Event := ⟨id, p.id, p.version, 0, now, .created p⟩

/-- The event of a new version of a product whose fingerprint was `previous`. -/
def updated (p : Product) (previous : String) (changes : List FieldChange) : Event :=
  ⟨id, p.id, p.version, 0, now, .updated p previous changes⟩

/-- The event that ends the history of a product; it counts as one more version. -/
def deleted (p : Product) : Event := ⟨id, p.id, p.version + 1, 0, now, .deleted p p.fingerprint⟩

/-- The kind of an event. -/
def kind (e : Event) : EventKind := e.payload.kind

/-- The product as recorded by an event. -/
def snapshot (e : Event) : Product := e.payload.snapshot

/-- The fingerprint that an event links to. -/
def previous (e : Event) : String := e.payload.previous

end Event

end CatalogChain
