import CatalogChain.Event.Chain
import CatalogChain.Json.Basic
import CatalogChain.Product.Validation

/-!
# Faults

A request that cannot be served ends in a fault.  A fault has a stable code, a text, a status in the
sense of HTTP, and a mark whether the same request may succeed later.
-/

namespace CatalogChain

/-- Why a variable of the environment cannot be used. -/
inductive SettingFault where
  | unreadable (name : String)
  | notPositive (name : String)
deriving DecidableEq, Repr

/-- **Why a request fails.** -/
inductive Fault where
  | invalidRequest (text : String)
  | notFound (id : String)
  | versionConflict (id : String) (expected found : Int)
  | lockContention (id : String)
  | invalidField (field reason : String)
  | brokenChain (id : String) (previous : Option Int) (version : Int) (reason : String)
  | duplicateVersion (id : String) (version : Int)
  | cancelled (key : String)
  | internal (text : String)
  | badSetting (fault : SettingFault)
deriving DecidableEq, Repr

namespace Fault

/-- The fault of a violated rule. -/
def ofViolation (v : Violation) : Fault := invalidField v.field v.rule.text

/-- The fault of a broken chain. -/
def ofBreak (b : Chain.Break) : Fault := brokenChain b.entityId b.previous b.version b.cause.text

/-- **The code** of a fault. -/
def code : Fault → String
  | invalidRequest _ => "invalid_request"
  | notFound _ => "product_not_found"
  | versionConflict .. => "version_conflict"
  | lockContention _ => "lock_contention"
  | invalidField .. => "validation_error"
  | brokenChain .. => "chain_integrity_violation"
  | duplicateVersion .. => "duplicate_version"
  | cancelled _ => "cancelled"
  | internal _ => "internal_error"
  | badSetting _ => "config_error"

/-- **The status** of a fault. -/
def status : Fault → Nat
  | invalidRequest _ | invalidField .. => 400
  | notFound _ => 404
  | versionConflict .. | duplicateVersion .. => 409
  | lockContention _ => 423
  | cancelled _ => 503
  | brokenChain .. | internal _ | badSetting _ => 500

/-- Whether the same request may succeed when it is sent again. -/
def isRetryable : Fault → Bool
  | versionConflict .. | lockContention _ => true
  | _ => false

/-- A conflict of versions in words. -/
def conflictText (expected found : Int) : String :=
  "expected " ++ Text.ofInt expected ++ ", found " ++ Text.ofInt found

/-- **The text** of a fault. -/
def text : Fault → String
  | invalidRequest text => "Invalid request: " ++ text
  | notFound id => "Product not found: " ++ id
  | versionConflict id expected found =>
    "Version conflict for " ++ id ++ ": " ++ conflictText expected found
  | lockContention id => "Lock contention on " ++ id ++ ": could not acquire lock"
  | invalidField field reason => "Validation failed for " ++ field ++ ": " ++ reason
  | brokenChain id previous version reason =>
    "Chain integrity violated for " ++ id ++ " between versions " ++
      previous.elim "start" Text.ofInt ++ " and " ++ Text.ofInt version ++ ": " ++ reason
  | duplicateVersion id version =>
    "Event already recorded for " ++ id ++ " at version " ++ Text.ofInt version
  | cancelled key => "Lock acquisition cancelled for " ++ key
  | internal text => "Internal error: " ++ text
  | badSetting (.unreadable name) =>
    "Configuration error: Invalid value for environment variable: " ++ name
  | badSetting (.notPositive name) =>
    "Configuration error: Environment variable must be greater than zero: " ++ name

/-- The part of a fault that a client may want by itself. -/
def details? : Fault → Option String
  | notFound id | lockContention id => some id
  | versionConflict _ expected found => some (conflictText expected found)
  | invalidField field _ => some field
  | brokenChain _ (some previous) version _ =>
    some ("versions " ++ Text.ofInt previous ++ " -> " ++ Text.ofInt version)
  | brokenChain _ none version _ => some ("version " ++ Text.ofInt version)
  | _ => none

/-- A fault as the body of a response. -/
def toJson (f : Fault) : Json :=
  .object <| ("error", .string f.text) :: ("error_code", .string f.code) ::
    Json.member? "details" .string f.details?

end Fault

end CatalogChain
