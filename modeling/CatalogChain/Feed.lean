import CatalogChain.Event.Basic
import CatalogChain.Power

/-!
# The feed

Committed events are published on one channel for each kind of event.  A channel keeps a bounded
number of the latest events.  A subscription reads the events published after it was made, in
order; one that falls behind the events kept learns once how many it has missed and goes on with
the oldest one kept.
-/

namespace CatalogChain

/-- **A channel**: the number of events published so far and the latest of them, newest first. -/
structure Channel where
  published : Nat
  kept : List Event
deriving Inhabited

namespace Channel

/-- The channel without events. -/
def empty : Channel := ⟨0, []⟩

/-- Publishes an event and keeps at most `span` events. -/
def publish (c : Channel) (span : Nat) (e : Event) : Channel :=
  ⟨c.published + 1, (e :: c.kept).take span⟩

/-- The event published behind the first `n`, if it is kept. -/
def get? (c : Channel) (n : Nat) : Option Event :=
  if n < c.published then c.kept[c.published - 1 - n]? else none

/-- The number of events that are no longer kept. -/
def dropped (c : Channel) : Nat := c.published - c.kept.length

end Channel

/-- **A subscription** to one kind of events, and the number of events on its channel that it has
read or missed. -/
structure Subscription where
  kind : EventKind
  next : Nat
deriving DecidableEq, Repr

/-- **What a read gives.** -/
inductive Received where
  | event (e : Event)
  /-- So many events were missed. -/
  | lagged (missed : Nat)
  | empty
  /-- There is nothing left and there will never be. -/
  | closed
deriving Inhabited

/-- **The feed**: the number of events that each channel keeps, a channel for each kind of events,
the subscriptions by name, and whether it is closed. -/
structure Feed where
  span : Nat
  created : Channel
  updated : Channel
  deleted : Channel
  subscriptions : Table Subscription
  isClosed : Bool

namespace Feed

/-- The number of events kept where none is given. -/
def defaultCapacity : Nat := 256

/-- The least power of two that is no less than a number. -/
def roundUp (n : Nat) : Nat := if n ≤ 1 then 1 else twoTo ((n - 1).log2 + 1)

/-- The greatest capacity that a channel can have: memory cannot address the entries of a greater
one.  They lie side by side, and no more than `2 ^ 63 - 1` bytes can do so.  Their number is a
power of two, and an entry takes about 370 bytes, which is between `2 ^ 8` and `2 ^ 9`, so `2 ^ 54`
of them have room and `2 ^ 55` have not.  That a machine has less memory is left out, and the limit
that a channel sets itself, half of all addresses, is greater. -/
def maxCapacity : Nat := twoTo 54

/-- The feed whose channels keep at least `capacity` events and at least one. -/
def ofCapacity (capacity : Nat) : Feed :=
  ⟨roundUp (max capacity 1), .empty, .empty, .empty, .empty, false⟩

/-- **A new feed** of a capacity, unless that is greater than a channel can have. -/
def ofCapacity? (capacity : Nat) : Option Feed :=
  if capacity ≤ maxCapacity then some (ofCapacity capacity) else none

instance : Inhabited Feed := ⟨ofCapacity defaultCapacity⟩

/-- The channel for a kind of events. -/
def channel (f : Feed) : EventKind → Channel
  | .created => f.created
  | .updated => f.updated
  | .deleted => f.deleted

/-- The number of subscriptions to a kind of events. -/
def subscribers (f : Feed) (kind : EventKind) : Nat :=
  f.subscriptions.values.countP fun s => s.kind = kind

/-- **Publishes an event** on the channel of its kind. -/
def publish (f : Feed) (e : Event) : Feed :=
  match e.kind with
  | .created => { f with created := f.created.publish f.span e }
  | .updated => { f with updated := f.updated.publish f.span e }
  | .deleted => { f with deleted := f.deleted.publish f.span e }

/-- Makes a subscription; an older one of the same name ends. -/
def subscribe (f : Feed) (name : String) (kind : EventKind) : Feed :=
  { f with subscriptions := f.subscriptions.put name ⟨kind, (f.channel kind).published⟩ }

/-- Ends a subscription. -/
def unsubscribe (f : Feed) (name : String) : Feed :=
  { f with subscriptions := f.subscriptions.erase name }

/-- Ends publication for ever. -/
def close (f : Feed) : Feed := { f with isClosed := true }

/-- One read of a subscription, and the subscription after it. -/
def receive (f : Feed) (s : Subscription) : Received × Subscription :=
  let c := f.channel s.kind
  if s.next < c.dropped then (.lagged (c.dropped - s.next), { s with next := c.dropped })
  else
    match c.get? s.next with
    | some e => (.event e, { s with next := s.next + 1 })
    | none => (if f.isClosed then .closed else .empty, s)

/-- Reads a subscription up to `limit` times; a read that finds nothing is the last. -/
def receiveUpTo (f : Feed) : (limit : Nat) → Subscription → List Received × Subscription
  | 0, s => ([], s)
  | limit + 1, s =>
    match f.receive s with
    | (.empty, s) => ([.empty], s)
    | (.closed, s) => ([.closed], s)
    | (r, s) =>
      let (rs, s) := receiveUpTo f limit s
      (r :: rs, s)

/-- The number of reads after which a subscription has nothing left. -/
def unread (f : Feed) (s : Subscription) : Nat := (f.channel s.kind).published - s.next + 2

/-- **Reads a named subscription** up to `limit` times, or as long as it has anything. -/
def read? (f : Feed) (name : String) (limit : Option Nat) : Option (List Received × Feed) :=
  (f.subscriptions.get? name).map fun s =>
    let (rs, s) := f.receiveUpTo (min (limit.getD (f.unread s)) (f.unread s)) s
    (rs, { f with subscriptions := f.subscriptions.put name s })

end Feed

end CatalogChain
