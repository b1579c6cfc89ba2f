import TypeStore.Context.Basic

/-!
# Concrete types

A type is concrete when no generic parameter and no projection is left in it. The check follows
the demands of shapes; it goes down at most as many levels as the recursion limit allows, and it
takes a data type for concrete when it meets it again among its own fields.
-/

namespace TypeStore.Context

/-- What concreteness asks of a slot, together with the node of the slot. -/
@[noinline]
def demandOf (c : Context) (i : SlotId) : Except Fault (NodeId × Demand) := do
  let s ← c.slot i
  return (s.node, s.shape.demand)

/-- Checks variables from left to right up to the first that is not concrete. -/
@[specialize]
def allConcrete (c : Context) (check : SlotId → Except Fault Bool) :
    List TypeVar → Except Fault Bool
  | [] => .ok true
  | v :: rest =>
    match c.typeOf v.node with
    | .error f => .error f
    | .ok i =>
      match check i with
      | .ok true => allConcrete c check rest
      | answer => answer

/-- Checks a slot, going at most `fuel` levels down; `entered` lists the nodes of the data types
whose fields are being checked. -/
def concreteWithin (c : Context) : Nat → List NodeId → SlotId → Except Fault Bool
  | 0, _, i => .error (c.limitFault i)
  | fuel + 1, entered, i =>
    match c.demandOf i with
    | .error f => .error f
    | .ok (node, demand) =>
      match demand with
      | .settled b => .ok b
      | .all vars => allConcrete c (concreteWithin c fuel entered) vars
      | .fields vars =>
        if entered.contains node then .ok true
        else allConcrete c (concreteWithin c fuel (node :: entered)) vars
      | .closure parameters result =>
        match allConcrete c (concreteWithin c fuel entered) [parameters] with
        | .error f => .error f
        | .ok true => .ok false
        | .ok false => allConcrete c (concreteWithin c fuel entered) [result]

/-- Whether a type is concrete. -/
def concrete (c : Context) (i : SlotId) : Except Fault Bool :=
  c.concreteWithin (c.config.recursionLimit + 1) [] i

/-- Whether a type is declared with parameters that have to be substituted; the question is not
asked of projections. -/
def needsSubstitution (c : Context) (i : SlotId) : Except Fault Bool := do
  let s ← c.slot i
  match s.shape with
  | .projection .. => throw (.error (.misuse s.node "generic substitution query on a projection"))
  | shape => return (shape.generics?.map Generics.needsSubstitution).getD false

/-- The number of bounds written on a parameter. -/
def boundCount (c : Context) (i : SlotId) : Except Fault Nat := do
  let s ← c.slot i
  return s.boundCount

end TypeStore.Context
