import TypeStore.Diagnostic
import TypeStore.Slot

/-!
# Errors of the store

`StoreError` lists the ways in which the rest of a checker can misuse the store; each is about one
node and has a message and a diagnostic. `Fault` adds the two ways in which an operation can come
to no answer at all.
-/

namespace TypeStore

/-- A request that the store refuses, and why. -/
inductive StoreError where
  /-- The node has no type yet. -/
  | unknownType (node : NodeId)
  /-- The request is sensible, but no answer is defined for it. -/
  | unimplemented (node : NodeId) (what : String)
  /-- The request makes no sense for the type. -/
  | misuse (node : NodeId) (what : String)
  /-- The expression has its adjustments already. -/
  | duplicateAdjustments (node : NodeId)
  /-- The enum item is known already. -/
  | duplicateEnumItem (node : NodeId)
  /-- The node has a path, and the one attempted is longer and differs. -/
  | pathConflict (node : NodeId) (existing attempted : String)
  /-- A walk over types took more than `limit` steps. -/
  | limitExceeded (node : NodeId) (limit : Nat)
  /-- The placeholder has no associated type yet. -/
  | unmappedPlaceholder (node : NodeId)
deriving DecidableEq, Repr

namespace StoreError

/-- The node the error is about. -/
def node : StoreError → NodeId
  | unknownType n => n
  | unimplemented n _ => n
  | misuse n _ => n
  | duplicateAdjustments n => n
  | duplicateEnumItem n => n
  | pathConflict n _ _ => n
  | limitExceeded n _ => n
  | unmappedPlaceholder n => n

def message : StoreError → String
  | unknownType n => "no type registered for node " ++ n.text
  | unimplemented n what => "`" ++ what ++ "` is not implemented (node " ++ n.text ++ ")"
  | misuse n what => "unreachable: " ++ what ++ " (node " ++ n.text ++ ")"
  | duplicateAdjustments n => "autoderef adjustments already recorded for node " ++ n.text
  | duplicateEnumItem n => "enum item " ++ n.text ++ " is already registered"
  | pathConflict n existing attempted =>
    "node " ++ n.text ++ " already has canonical path `" ++ existing ++ "`, refusing `"
      ++ attempted ++ "`"
  | limitExceeded n limit =>
    "type resolution for node " ++ n.text ++ " exceeded the recursion limit of " ++ toString limit
  | unmappedPlaceholder n => "placeholder " ++ n.text ++ " has no associated type mapping"

/-- The report of an error seen at a location. Exceeding the limit and using a placeholder too
early are errors of the program; the others are errors of the checker. -/
def toDiagnostic (e : StoreError) (location : Location) : Diagnostic :=
  match e with
  | limitExceeded n limit => .limitExceeded n location limit
  | unmappedPlaceholder n =>
    (Diagnostic.error .unknownAssociatedType n "associated type is not known yet").pointingAt
      location "placeholder used here"
  | unimplemented n _ =>
    (Diagnostic.internal .unhandledCase n e.message).pointingAt location "while checking this"
  | _ =>
    (Diagnostic.internal .brokenInvariant e.node e.message).pointingAt location
      "while checking this"

end StoreError

/-- Why an operation has no answer. -/
inductive Fault where
  /-- The request is refused. -/
  | error (error : StoreError)
  /-- There is no slot with this id. -/
  | missingSlot (slot : SlotId)
  /-- The text of a type that contains itself has no end. -/
  | endlessText (slot : SlotId)
deriving DecidableEq, Repr

end TypeStore
