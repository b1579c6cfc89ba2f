import TypeStore.Context.Basic

/-!
# Units, modules and items

The tables of what a program declares. The parent module of an item and the record of an enum item
are kept as first written; all other records may be written again.
-/

namespace TypeStore.Context

/-! ## Compilation units -/

def addCrate (c : Context) (crate : CrateId) (record : CrateRecord) : Context :=
  { c with items := { c.items with crates := c.items.crates.insert crate record } }

def crateName? (c : Context) (crate : CrateId) : Option String :=
  c.items.crates[crate]?.map CrateRecord.name

/-- Whether a node is the root of a known unit. -/
def isCrateRoot (c : Context) (n : NodeId) : Bool :=
  c.items.crates.values.any fun record => record.node == n

def setCurrentCrate (c : Context) (crate : CrateId) : Context := { c with currentCrate := crate }

/-! ## Modules -/

def addModule (c : Context) (record : ModuleRecord) : Context :=
  { c with items := { c.items with modules := c.items.modules.insert record.node record } }

def module? (c : Context) (n : NodeId) : Option ModuleRecord := c.items.modules[n]?

/-- The paths of the children of a module, in the order in which they were added. -/
def children? (c : Context) (n : NodeId) : Option (List Path) := c.items.children[n]?

/-- Whether a node is a module with children. -/
def hasChildren (c : Context) (n : NodeId) : Bool := (c.children? n).isSome

def addChild (c : Context) (n : NodeId) (path : Path) : Context :=
  { c with items := { c.items with
    children := c.items.children.insert n ((c.children? n).getD [] ++ [path]) } }

/-- The first child of a module whose path has the names of a given one. -/
def child? (c : Context) (n : NodeId) (path : Path) : Option Path :=
  (c.children? n).bind fun children => children.find? fun child => child.sameNames path

def parent? (c : Context) (n : NodeId) : Option NodeId := c.items.parents[n]?

/-- Records the module an item stands in, unless one is on record. -/
def setParent (c : Context) (n parent : NodeId) : Context :=
  match c.parent? n with
  | some _ => c
  | none => { c with items := { c.items with parents := c.items.parents.insert n parent } }

/-! ## Items -/

def addItem (c : Context) (record : ItemRecord) : Context :=
  { c with items := { c.items with items := c.items.items.insert record.node record } }

def item? (c : Context) (n : NodeId) : Option ItemRecord := c.items.items[n]?

def addEnum (c : Context) (record : EnumRecord) : Context :=
  { c with items := { c.items with enums := c.items.enums.insert record.node record } }

def enum? (c : Context) (n : NodeId) : Option EnumRecord := c.items.enums[n]?

def enumItem? (c : Context) (n : NodeId) : Option (EnumRecord × EnumItemRecord) :=
  c.items.enumItems[n]?

/-- Records an item of an enum, once, whichever enum it belongs to. -/
def addEnumItem (c : Context) (parent : EnumRecord) (item : EnumItemRecord) :
    Except Fault Context :=
  match c.enumItem? item.node with
  | none => .ok { c with items := { c.items with
      enumItems := c.items.enumItems.insert item.node (parent, item) } }
  | some _ => .error (.error (.duplicateEnumItem item.node))

/-- Records the variant that a node refers to. -/
def setVariant (c : Context) (n variant : NodeId) : Context :=
  { c with items := { c.items with variants := c.items.variants.insert n variant } }

def variant? (c : Context) (n : NodeId) : Option NodeId := c.items.variants[n]?

def addImpl (c : Context) (record : ImplRecord) : Context :=
  { c with items := { c.items with impls := c.items.impls.insert record.node record } }

def impl? (c : Context) (n : NodeId) : Option ImplRecord := c.items.impls[n]?

def addExternal (c : Context) (record : ExternalRecord) : Context :=
  { c with items := { c.items with externals := c.items.externals.insert record.node record } }

def external? (c : Context) (n : NodeId) : Option ExternalRecord := c.items.externals[n]?

def addAssociated (c : Context) (record : AssociatedRecord) : Context :=
  { c with items := { c.items with associated := c.items.associated.insert record.node record } }

def associated? (c : Context) (n : NodeId) : Option AssociatedRecord := c.items.associated[n]?

end TypeStore.Context
