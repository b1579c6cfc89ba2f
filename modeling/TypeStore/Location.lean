import TypeStore.Node

/-!
# Source locations

A location is a place in a source file, or one of two ways of having none.
-/

namespace TypeStore

/-- Where a node or a type was written. -/
inductive Location where
  /-- Provided by the language itself. -/
  | builtin
  /-- Made up along the way, without a place in any file. -/
  | unknown
  /-- A line and a column, both counted from one, of a numbered file. -/
  | source (file line column : Nat)
deriving DecidableEq, Repr

namespace Location

instance : Inhabited Location := ⟨unknown⟩

def isSource : Location → Bool
  | source .. => true
  | _ => false

/-- Line and column; a location outside every file counts as the first character. -/
def lineColumn : Location → Nat × Nat
  | source _ line column => (line, column)
  | _ => (1, 1)

def text : Location → String
  | builtin => "<builtin>"
  | unknown => "<unknown>"
  | source file line column =>
    toString file ++ ":" ++ toString line ++ ":" ++ toString column

end Location

/-- A node together with the unit and the location it belongs to. -/
structure Site where
  node : NodeId
  crate : CrateId
  location : Location
deriving DecidableEq, Repr

end TypeStore
