import TypeStore.Context.Basic

/-!
# Facts about nodes

Most facts may be written again and the last writer wins. Two are kept as first written: the path
of a node, which refuses a longer path with other names, and the adjustments of an expression,
which refuse any second list.
-/

namespace TypeStore.Context

/-! ## Paths -/

/-- Whether a path may stand where `kept` is on record: it changes nothing if it has the same
names or is no longer, and is refused otherwise. -/
def acceptsPath (kept path : Path) : Bool := kept.sameNames path || path.length ≤ kept.length

/-- Records the path of a node, unless one is on record. -/
def recordPath (c : Context) (n : NodeId) (path : Path) : Except Fault Context :=
  match c.facts.paths[n]? with
  | none => .ok { c with facts := { c.facts with paths := c.facts.paths.insert n path } }
  | some kept =>
    if acceptsPath kept path then .ok c
    else .error (.error (.pathConflict n kept.text path.text))

def path? (c : Context) (n : NodeId) : Option Path := c.facts.paths[n]?

/-! ## Locations, names and predicates -/

def recordLocation (c : Context) (n : NodeId) (location : Location) : Context :=
  { c with facts := { c.facts with locations := c.facts.locations.insert n location } }

def location? (c : Context) (n : NodeId) : Option Location := c.facts.locations[n]?

/-- Records the definition that the use of a name refers to. -/
def recordName (c : Context) (use definition : NodeId) : Context :=
  { c with facts := { c.facts with names := c.facts.names.insert use definition } }

def definition? (c : Context) (use : NodeId) : Option NodeId := c.facts.names[use]?

def recordPredicate (c : Context) (n : NodeId) (b : Bound) : Context :=
  { c with facts := { c.facts with predicates := c.facts.predicates.insert n b } }

def predicate? (c : Context) (n : NodeId) : Option Bound := c.facts.predicates[n]?

/-! ## Associated types -/

/-- Lets a placeholder stand for the type of a node. -/
def mapPlaceholder (c : Context) (placeholder n : NodeId) : Context :=
  { c with facts := { c.facts with
    associatedTypes := c.facts.associatedTypes.insert placeholder n } }

/-- Makes the associated type of a placeholder unknown again. -/
def unmapPlaceholder (c : Context) (placeholder : NodeId) : Context :=
  { c with facts := { c.facts with
    associatedTypes := c.facts.associatedTypes.erase placeholder } }

def associatedType? (c : Context) (placeholder : NodeId) : Option NodeId :=
  c.facts.associatedTypes[placeholder]?

/-! ## Adjustments and captures -/

/-- Records the adjustments of an expression, once. -/
def recordAdjustments (c : Context) (n : NodeId) (steps : List Adjustment) :
    Except Fault Context :=
  match c.facts.adjustments[n]? with
  | none => .ok { c with facts := { c.facts with
      adjustments := c.facts.adjustments.insert n steps } }
  | some _ => .error (.error (.duplicateAdjustments n))

def adjustments? (c : Context) (n : NodeId) : Option (List Adjustment) := c.facts.adjustments[n]?

/-- The bindings that a closure captures. -/
def captures (c : Context) (closure : NodeId) : NodeSet := c.facts.captures[closure]?.getD ∅

/-- Notes that a closure captures a binding. -/
def recordCapture (c : Context) (closure captured : NodeId) : Context :=
  { c with facts := { c.facts with
    captures := c.facts.captures.insert closure ((c.captures closure).insert captured) } }

end TypeStore.Context
