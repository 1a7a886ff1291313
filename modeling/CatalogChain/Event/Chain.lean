import CatalogChain.Event.Basic

/-!
# Chains of events

The history of one product is a chain: versions without a gap, and every event linked to the
fingerprint that its predecessor recorded.  `Chain.check` walks along a list of events and reports
the first break; `Chain.Linked` says the same as a condition on all neighbours.
-/

namespace CatalogChain

namespace Chain

/-- **How a chain can break** at an event. -/
inductive Cause where
  /-- The list begins with an event that neither begins a history nor links to one. -/
  | unanchored
  /-- The event belongs to another product. -/
  | foreign (actual expected : String)
  /-- The version is not the next one. -/
  | gap (expected : Int)
  /-- The link is not the fingerprint that the predecessor recorded. -/
  | unlinked (actual expected : String)
deriving DecidableEq, Repr

/-- A fingerprint in a message. -/
def fingerprintText (s : String) : String := if s = "" then "<empty>" else s

/-- A cause in words. -/
def Cause.text : Cause → String
  | unanchored => "non-creation event at start of range has empty prev_hash"
  | foreign actual expected => "event belongs to " ++ actual ++ " not " ++ expected
  | gap expected => "expected version " ++ Text.ofInt expected
  | unlinked actual expected =>
    "prev_hash " ++ fingerprintText actual ++ " does not match predecessor hash " ++
      fingerprintText expected

/-- **A break**: the event at which a chain breaks, the version before it, and the cause. -/
structure Break where
  entityId : String
  previous : Option Int
  version : Int
  cause : Cause
deriving DecidableEq, Repr

/-- The outcome of checking a chain. -/
abbrev Outcome := Except Break Unit

/-- A break at an event. -/
def breakAt (e : Event) (previous : Option Int) (cause : Cause) : Outcome :=
  .error ⟨e.entityId, previous, e.version, cause⟩

/-- Checks the events behind `before` in a chain of the product `entityId`. -/
def checkFrom (entityId : String) (before : Event) : List Event → Outcome
  | [] => .ok ()
  | e :: es =>
    if e.entityId ≠ entityId then
      breakAt e before.version (.foreign e.entityId entityId)
    else if e.version ≠ before.version + 1 then
      breakAt e before.version (.gap (before.version + 1))
    else if e.previous ≠ before.snapshot.fingerprint then
      breakAt e before.version (.unlinked e.previous before.snapshot.fingerprint)
    else checkFrom entityId e es

/-- **Checking a chain**: nothing, or the first break. -/
def check : List Event → Outcome
  | [] => .ok ()
  | e :: es =>
    if ¬ e.payload.isCreation ∧ e.previous = "" then breakAt e none .unanchored
    else checkFrom e.entityId e es

/-! ## The condition -/

/-- An event can begin a chain if it begins a history or links to an event before. -/
def Anchored (e : Event) : Prop := e.payload.isCreation = true ∨ e.previous ≠ ""

/-- An event follows another in the history of a product. -/
structure Follows (entityId : String) (before e : Event) : Prop where
  entity : e.entityId = entityId
  version : e.version = before.version + 1
  link : e.previous = before.snapshot.fingerprint

/-- **A linked list of events**: the first one is anchored, and each other one follows its
neighbour in the history of the first one's product. -/
structure Linked (es : List Event) : Prop where
  anchored : ∀ h : 0 < es.length, Anchored es[0]
  follows : ∀ i, (h : i + 1 < es.length) → Follows es[0].entityId es[i] es[i + 1]

end Chain

end CatalogChain
