import TypeStore.Node

/-!
# Adjustments

The implicit steps by which an expression is coerced before use, for instance taking a reference
or following one.
-/

namespace TypeStore

inductive AdjustmentKind where
  | error
  | immRef
  | mutRef
  | deref
  | derefMut
  | indirection
  | unsize
deriving DecidableEq, Repr

namespace AdjustmentKind

/-- Whether the step runs a dereferencing method of the program. -/
def isDereference : AdjustmentKind → Bool
  | deref | derefMut => true
  | _ => false

end AdjustmentKind

/-- One step: its kind, the node of the type it leads to, and the method it runs, if any. -/
structure Adjustment where
  kind : AdjustmentKind
  expected : NodeId
  method : Option NodeId
deriving DecidableEq, Repr

end TypeStore
