import TypeStore.Location

/-!
# Paths

A path names an item by the segments that lead to it. Each segment keeps the node that introduced
it, but two paths are the same path, and are ordered, by the names of their segments alone.
-/

namespace TypeStore

/-- One step of a path: a name and the node that introduced it. -/
structure Segment where
  node : NodeId
  name : String
deriving DecidableEq, Repr

/-- The full path of an item, with the unit it belongs to. -/
structure Path where
  segments : List Segment
  crate : CrateId
deriving DecidableEq, Repr

namespace Path

/-- The path without segments. -/
def empty : Path := ⟨[], .unknown⟩

instance : Inhabited Path := ⟨empty⟩

/-- A path of one segment. -/
def single (node : NodeId) (name : String) : Path := ⟨[⟨node, name⟩], .unknown⟩

/-- The path of the implementing type inside an implementation. -/
def selfType (node : NodeId) : Path := single node "Self"

/-- The path of the value a method is called on, or of the enclosing module. -/
def selfValue (node : NodeId) : Path := single node "self"

/-- The names of the segments, which decide equality and order. -/
def names (p : Path) : List String := p.segments.map Segment.name

def length (p : Path) : Nat := p.segments.length

def isEmpty (p : Path) : Bool := p.segments.isEmpty

/-- The node of the last segment. -/
def lastNode? (p : Path) : Option NodeId := p.segments.getLast?.map Segment.node

/-- The name of the last segment. -/
def lastName? (p : Path) : Option String := p.segments.getLast?.map Segment.name

/-- The names with `::` between them. -/
def text (p : Path) : String := "::".intercalate p.names

/-- The one-segment path that stands for a type seen through a trait. -/
def projection (node : NodeId) (traitPath typePath : Path) : Path :=
  single node ("<" ++ typePath.text ++ " as " ++ traitPath.text ++ ">")

/-- The segments of `q` after those of `p`, in the unit of `p`. -/
def append (p q : Path) : Path := ⟨p.segments ++ q.segments, p.crate⟩

def withCrate (p : Path) (crate : CrateId) : Path := { p with crate }

/-- Same names in the same order. -/
def sameNames (p q : Path) : Bool := p.names == q.names

/-- Shorter paths come first; paths of one length are compared name by name. -/
instance : Ord Path where
  compare p q := (compare p.length q.length).then (compare p.names q.names)

/-- Paths in ascending order; paths with the same names keep their order. -/
def sort (ps : List Path) : List Path :=
  ps.mergeSort fun p q => (compare p q).isLE

/-- What a set of paths goes by: how many segments there are, and their names. -/
def key (p : Path) : Nat × List String := (p.length, p.names)

/-- Puts paths into a set of keys one by one and tells for each whether it was new. -/
def added (seen : List (Nat × List String)) : List Path → List Bool
  | [] => []
  | p :: rest =>
    if seen.contains p.key then false :: added seen rest
    else true :: added (p.key :: seen) rest

/-- Tells for each path of a list whether no path before it has the same names. -/
def firstSeen (ps : List Path) : List Bool := added [] ps

/-- The path with its names only: every node and the unit are blanked. -/
def bare (p : Path) : Path := ⟨p.segments.map fun s => ⟨⟨0⟩, s.name⟩, .unknown⟩

end Path

/-- Where a type was declared: its path and its location. -/
structure Declaration where
  path : Path
  location : Location
deriving DecidableEq, Repr

end TypeStore
