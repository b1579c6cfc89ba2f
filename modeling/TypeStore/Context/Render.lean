import TypeStore.Context.Basic

/-!
# The text of a type

Every shape has a layout: pieces of text with the children between them. Writing a type writes its
layout and the children in place, from left to right, into a buffer; what was written before a
failure stays written. Function items have no layout.

A type that contains itself has no finite text. Along a chain of children that does not come back
to a slot there are at most as many slots as the arena has, so a writer that goes deeper than that
is going in circles.
-/

namespace TypeStore

/-- A part of the text of a type. -/
inductive Piece where
  | text (s : String)
  | child (v : TypeVar)
deriving DecidableEq, Repr

namespace Piece

/-- Children with a comma between them. -/
def commas (vars : List TypeVar) : List Piece :=
  (vars.map child).intersperse (text ", ")

end Piece

namespace Mutability

/-- How a reference begins. -/
def referenceMark : Mutability → String
  | readOnly => "&"
  | writable => "&mut "

/-- How a raw pointer begins. -/
def pointerMark : Mutability → String
  | readOnly => "*const "
  | writable => "*mut "

end Mutability

namespace Inference.Category

def text : Category → String
  | integral => "<integer>"
  | float => "<float>"
  | general => "T?"

end Inference.Category

namespace Adt

/-- The name, the parameters and the names of the variants; fields are left out. -/
def text (a : Adt) : String :=
  a.name ++ a.generics.text ++ "\x7b" ++ ", ".intercalate (a.variants.map Variant.name) ++ "\x7d"

end Adt

namespace Slot

/-- The pieces of the text of a slot; function items have none. -/
def layout? (s : Slot) : Option (List Piece) :=
  match s.shape with
  | .bool => some [.text "bool"]
  | .char => some [.text "char"]
  | .str => some [.text "str"]
  | .never => some [.text "!"]
  | .error => some [.text "error"]
  | .dynamic =>
    some [.text ("dyn " ++ " + ".intercalate (s.bounds.toList.map fun b => b.path.text))]
  | .scalar n => some [.text n.name]
  | .tuple fields => some (.text "(" :: Piece.commas fields ++ [.text ")"])
  | .function .. => none
  | .closure parameters result _ _ =>
    some [.text "|", .child parameters, .text "| \x7b", .child result, .text "\x7d"]
  | .adt a => some [.text a.text]
  | .array element _ => some [.text "[", .child element, .text ":CAPACITY]"]
  | .slice element => some [.text "[", .child element, .text "]"]
  | .reference base m => some [.text m.referenceMark, .child base]
  | .rawPointer base m => some [.text m.pointerMark, .child base]
  | .parameter name _ => some [.text name]
  | .placeholder name => some [.text ("<placeholder:" ++ name ++ ">")]
  | .projection base _ _ _ => some [.child base]
  | .functionPointer params result =>
    some (.text "fn(" :: Piece.commas params ++ [.text ") -> ", .child result])
  | .infer state _ => some [.text state.category.text]

/-- The pieces of the text of a slot, or the refusal to write it. -/
def layout (s : Slot) : Except Fault (List Piece) :=
  match s.layout? with
  | some pieces => .ok pieces
  | none => .error (.error (.unimplemented s.node "function type rendering"))

end Slot

/-- Writes into a buffer and may fail; what was written stays. -/
abbrev Writing := EStateM Fault String

namespace Writing

/-- Appends a text. -/
def put (s : String) : Writing Unit := fun buffer => .ok () (buffer ++ s)

/-- Takes over the answer of a question that writes nothing. -/
@[inline]
def ask {α : Type} (x : Except Fault α) : Writing α := fun buffer =>
  match x with
  | .ok a => .ok a buffer
  | .error f => .error f buffer

end Writing

namespace Context

/-- The layout of a slot. -/
@[noinline]
def layoutOf (c : Context) (i : SlotId) : Except Fault (List Piece) := do
  let s ← c.slot i
  s.layout

/-- Writes pieces one after the other, the children by `write`. -/
@[specialize]
def writePieces (c : Context) (write : SlotId → Writing Unit) : List Piece → Writing Unit
  | [] => pure ()
  | .text s :: rest => do
    Writing.put s
    writePieces c write rest
  | .child v :: rest => do
    let i ← Writing.ask (c.typeOf v.node)
    write i
    writePieces c write rest

/-- Writes a slot, going at most `fuel` levels deep. -/
def writeSlot (c : Context) : Nat → SlotId → Writing Unit
  | 0, i => throw (.endlessText i)
  | fuel + 1, i => do
    let pieces ← Writing.ask (c.layoutOf i)
    writePieces c (writeSlot c fuel) pieces

/-- Writes a slot after what a buffer holds. -/
def write (c : Context) (i : SlotId) : Writing Unit := c.writeSlot (c.size + 1) i

/-- The text of a slot. -/
def render (c : Context) (i : SlotId) : Except Fault String :=
  match (c.write i).run "" with
  | .ok _ s => .ok s
  | .error f _ => .error f

end Context

end TypeStore
