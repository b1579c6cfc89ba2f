import TypeStore.Context.Render

/-!
# Builtin types

A new context has one slot for each primitive type and one for the empty tuple. Each of them has a
node of its own and a second node for its name as written in source; a builtin type is found again
by its text.
-/

namespace TypeStore

/-- The primitive types, in the order in which they are created. -/
def primitives : List (String × Shape) :=
  [("u8", .scalar (.uint .w8)),
    ("u16", .scalar (.uint .w16)),
    ("u32", .scalar (.uint .w32)),
    ("u64", .scalar (.uint .w64)),
    ("u128", .scalar (.uint .w128)),
    ("i8", .scalar (.int .w8)),
    ("i16", .scalar (.int .w16)),
    ("i32", .scalar (.int .w32)),
    ("i64", .scalar (.int .w64)),
    ("i128", .scalar (.int .w128)),
    ("f32", .scalar (.float .w32)),
    ("f64", .scalar (.float .w64)),
    ("bool", .bool),
    ("usize", .scalar .usize),
    ("isize", .scalar .isize),
    ("char", .char),
    ("str", .str),
    ("!", .never)]

namespace Context

/-! ## Adding builtin types -/

/-- Makes a slot the builtin type of a node, with `nameNode` as the node of its written name. -/
def addBuiltin (c : Context) (node nameNode : NodeId) (i : SlotId) : Context :=
  { c with
    types := c.types.insert node i
    builtins := { c.builtins with
      slots := c.builtins.slots ++ [i]
      aliases := c.builtins.aliases.insert nameNode node } }

def setUnitNode (c : Context) (node : NodeId) : Context :=
  { c with builtins := { c.builtins with unitNode := some node } }

/-- Lists the node of a written name. -/
def addBuiltinName (c : Context) (name : String) (node : NodeId) : Context :=
  { c with builtins := { c.builtins with names := c.builtins.names ++ [(name, node)] } }

/-- Gives the node of a written name the path that consists of the name. -/
def addBuiltinPath (c : Context) (name : String) (node : NodeId) : Context :=
  { c with facts := { c.facts with paths := c.facts.paths.insert node (.single node name) } }

/-- Creates a builtin type with a name; answers with the node of the name. -/
def createBuiltin (c : Context) (name : String) (slotFor : NodeId → Slot) : NodeId × Context :=
  let (node, c) := c.fresh
  let (i, c) := c.allocate (slotFor node)
  let (nameNode, c) := c.fresh
  (nameNode, (c.addBuiltinName name nameNode).addBuiltin node nameNode i)

/-- Creates a primitive type. -/
def createPrimitive (c : Context) (primitive : String × Shape) : Context :=
  let (nameNode, c) := c.createBuiltin primitive.1 fun node => .new node primitive.2
  c.addBuiltinPath primitive.1 nameNode

/-- Creates the empty tuple. -/
def createUnit (c : Context) : Context :=
  let (nameNode, c) := c.createBuiltin "()" fun node =>
    { Slot.new node .unit with declaration := .located .builtin }
  c.setUnitNode nameNode

/-- A context with the builtin types. -/
def new (config : Config) : Context :=
  (primitives.foldl createPrimitive (blank config)).createUnit

/-! ## Finding builtin types -/

/-- The first of some slots with a given text; slots without a text are passed over. -/
def findByText (c : Context) (text : String) : List SlotId → Except Fault (Option SlotId)
  | [] => .ok none
  | i :: rest =>
    match c.render i with
    | .ok s => if s = text then .ok (some i) else findByText c text rest
    | .error (.error _) => findByText c text rest
    | .error f => .error f

/-- The builtin type with a given text. -/
def findBuiltin (c : Context) (text : String) : Except Fault (Option SlotId) :=
  c.findByText text c.builtins.slots

end Context

end TypeStore
