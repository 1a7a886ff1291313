import CatalogChain.Event.Basic

/-!
# Events in JSON

A payload is an object whose member `action` names the kind, at any place among its fields; it may
also be an array that begins with the kind.  Values of changed fields are arbitrary JSON.
-/

namespace CatalogChain

namespace FieldChange

/-- The fields of a change in their declared order. -/
def names : List String := ["field", "old_value", "new_value"]

/-- A change as an object; a missing old value is left out. -/
def toJson (c : FieldChange) : Json :=
  .object <| ("field", .string c.name) :: Json.member? "old_value" id c.oldValue ++
    [("new_value", c.newValue)]

/-- A change from its fields, with at most `depth` levels of nesting in its values. -/
def read (depth : Nat) : Outline → Reading FieldChange :=
  readRecord names <|
    FieldChange.mk <$> field "field" Outline.readText
      <*> field? "old_value" (Outline.toJson depth)
      <*> field "new_value" (Outline.toJson depth)

end FieldChange

/-! ## Kinds -/

/-- A kind as its topic. -/
def EventKind.toJson (k : EventKind) : Json := .string k.topic

/-- **A kind** from its topic, alone or as the only member of an object with the value `null`. -/
def EventKind.read : Outline → Reading EventKind
  | .string (some s) => (EventKind.ofTopic? s).elim (.error .mistyped) .ok
  | .object [(some s, .null)] true => (EventKind.ofTopic? s).elim (.error .mistyped) .ok
  | .object _ false | .object ((none, _) :: _) _ => .error .malformed
  | o => .error o.flaw

namespace Payload

/-- A payload as an object. -/
def toJson (p : Payload) : Json :=
  .object <| ("action", .string p.kind.action) ::
    match p with
    | created s => [("snapshot", s.toJson)]
    | updated s h cs =>
      [("snapshot", s.toJson), ("prev_hash", .string h), ("changes", .list FieldChange.toJson cs)]
    | deleted s h => [("snapshot", s.toJson), ("prev_hash", .string h)]

/-- The fields of a payload of a kind. -/
def readAs (depth : Nat) : EventKind → Outline → Reading Payload
  | .created => readRecord ["snapshot"] (created <$> field "snapshot" Product.read)
  | .updated =>
    readRecord ["snapshot", "prev_hash", "changes"] <|
      updated <$> field "snapshot" Product.read <*> field "prev_hash" Outline.readText
        <*> field "changes" (Outline.readList (FieldChange.read depth))
  | .deleted =>
    readRecord ["snapshot", "prev_hash"] <|
      deleted <$> field "snapshot" Product.read <*> field "prev_hash" Outline.readText

/-- The kind of an action. -/
def readAction : Outline → Reading EventKind
  | .string (some s) => (EventKind.all.find? fun k => k.action = s).elim (.error .mistyped) .ok
  | o => .error o.flaw

/-- **A payload**, with at most `depth` levels of nesting.  All of it must have a value, skipped
members included. -/
def read (depth : Nat) (o : Outline) : Reading Payload := do
  match o with
  | .object members closed =>
    let tags := members.filter fun m => m.1 = some "action"
    let others := members.filter fun m => m.1 ≠ some "action"
    match tags with
    | [tag] =>
      let kind ← readAction tag.2
      let _ ← (Outline.object others closed).toJson depth
      readAs depth kind (.object others closed)
    | _ => if closed then .error .mistyped else .error .malformed
  | .array (tag :: items) closed =>
    let kind ← readAction tag
    let _ ← (Outline.array items closed).toJson depth
    readAs depth kind (.array items closed)
  | .array [] false => .error .malformed
  | o => .error o.flaw

end Payload

namespace Event

/-- The fields of an event in their declared order. -/
def names : List String := ["id", "entity_id", "version", "sequence", "timestamp", "payload"]

/-- An event as an object. -/
def toJson (e : Event) : Json :=
  .object [
    ("id", .string e.id.text),
    ("entity_id", .string e.entityId),
    ("version", .int e.version),
    ("sequence", .nat e.sequence),
    ("timestamp", e.timestamp.toJson),
    ("payload", e.payload.toJson)]

/-- An identifier from a string. -/
def readId : Outline → Reading Uuid
  | .string (some s) => (Uuid.read? s).elim (.error .mistyped) .ok
  | o => .error o.flaw

/-- **An event** from its fields, with at most `depth` levels of nesting. -/
def read (depth : Nat) : Outline → Reading Event :=
  readRecord names <|
    Event.mk <$> field "id" readId <*> field "entity_id" Outline.readText
      <*> field "version" Outline.readInt64 <*> field "sequence" Outline.readNat64
      <*> field "timestamp" Instant.read <*> field "payload" (Payload.read (depth - 1))

end Event

end CatalogChain
