import TypeStore.Location

/-!
# Items

What later passes want to know about the items of a program, each kept under its node.
-/

namespace TypeStore

/-- A compilation unit: its root and its name. -/
structure CrateRecord where
  node : NodeId
  name : String
deriving DecidableEq, Repr

structure ModuleRecord where
  node : NodeId
  name : String
  location : Location
deriving DecidableEq, Repr

inductive ItemKind where
  | module
  | externCrate
  | useDeclaration
  | function
  | typeAlias
  | struct
  | enumeration
  | union
  | constant
  | static
  | trait
  | implementation
  | externBlock
  | macroRules
deriving DecidableEq, Repr

/-- An item of a module; implementations, extern blocks and use declarations have no name. -/
structure ItemRecord where
  node : NodeId
  kind : ItemKind
  name : Option String
  location : Location
deriving DecidableEq, Repr

structure EnumRecord where
  node : NodeId
  name : String
  location : Location
deriving DecidableEq, Repr

/-- One item of an enum, with the node of its explicit discriminant. -/
structure EnumItemRecord where
  node : NodeId
  name : String
  discriminant : Option NodeId
  location : Location
deriving DecidableEq, Repr

/-- An implementation block: the type, and the trait if it implements one. -/
structure ImplRecord where
  node : NodeId
  selfType : NodeId
  traitNode : Option NodeId
  location : Location
deriving DecidableEq, Repr

inductive ExternalKind where
  | function
  | static
deriving DecidableEq, Repr

/-- An item inside an extern block. -/
structure ExternalRecord where
  node : NodeId
  kind : ExternalKind
  name : String
  block : NodeId
  location : Location
deriving DecidableEq, Repr

inductive AssociatedKind where
  | function
  | constant
  | typeAlias
deriving DecidableEq, Repr

/-- An item inside a trait or an implementation block. -/
structure AssociatedRecord where
  node : NodeId
  kind : AssociatedKind
  name : String
  owner : NodeId
  location : Location
deriving DecidableEq, Repr

end TypeStore
