import CatalogChain.Uuid

/-!
# Contexts of requests

A context goes with a request: an identifier that correlates it with others, and whether it is
cancelled.
-/

namespace CatalogChain

/-- **The context** of a request. -/
structure Context where
  correlationId : Option Uuid
  cancelled : Bool := false
deriving DecidableEq, Inhabited

namespace Context

/-- The correlation identifier, which becomes `fresh` if there is none yet. -/
def ensureCorrelationId (c : Context) (fresh : Uuid) : Uuid × Context :=
  let id := c.correlationId.getD fresh
  (id, { c with correlationId := some id })

/-- Cancels the request for good. -/
def cancel (c : Context) : Context := { c with cancelled := true }

end Context

end CatalogChain
