import TypeStore.NodeMap
import TypeStore.Inference
import TypeStore.Generics
import TypeStore.Path

/-!
# Shapes of types

A shape is what a type is made of. Its children are type variables: nodes, to be looked up in the
table of types each time they are needed, so that giving a node another type changes every type
that mentions it.

Three views of the children matter later and are defined here once: `owned`, the children a copy
copies along; `demand`, what concreteness asks of a shape; `scalar?`, the number type a shape is.
-/

namespace TypeStore

/-- Stands for whatever type a node has. -/
structure TypeVar where
  node : NodeId
deriving DecidableEq, Repr

/-- Whether one may write through a reference or a pointer. -/
inductive Mutability where
  | readOnly
  | writable
deriving DecidableEq, Repr

/-! ## Algebraic data types -/

inductive AdtKind where
  | struct
  | tupleStruct
  | union
  | enum
deriving DecidableEq, Repr

inductive VariantKind where
  /-- Named fields. -/
  | struct
  /-- Positional fields. -/
  | tuple
  /-- No fields, perhaps a discriminant. -/
  | enum
deriving DecidableEq, Repr

structure Field where
  node : NodeId
  name : String
  type : TypeVar
  location : Location
deriving DecidableEq, Repr

/-- One alternative of a data type; structs and unions have exactly one. -/
structure Variant where
  id : NodeId
  name : String
  declaration : Declaration
  kind : VariantKind
  /-- The node of the expression that gives the discriminant. -/
  discriminant : Option NodeId
  fields : List Field
deriving DecidableEq, Repr

namespace Variant

/-- The first field with a name, and its position. -/
def field? (v : Variant) (name : String) : Option (Nat × Field) :=
  (v.fields.zipIdx.find? fun entry => entry.1.name == name).map fun entry => (entry.2, entry.1)

def fieldTypes (v : Variant) : List TypeVar := v.fields.map Field.type

/-- The variant with other field types, which must be as many as there are fields. -/
def withFieldTypes (v : Variant) (types : List TypeVar) : Variant :=
  { v with fields := v.fields.zipWith (fun f type => { f with type }) types }

end Variant

structure Adt where
  name : String
  kind : AdtKind
  variants : List Variant
  generics : Generics
deriving DecidableEq, Repr

namespace Adt

/-- Nothing to store: no variants, or a single one without fields. -/
def isUnit (a : Adt) : Bool :=
  match a.variants with
  | [] => true
  | [only] => only.fields.isEmpty
  | _ => false

def isEnum (a : Adt) : Bool := a.kind == .enum

/-- The first variant with a name. -/
def variant? (a : Adt) (name : String) : Option Variant :=
  a.variants.find? fun v => v.name == name

/-- The types of all fields, variant by variant. -/
def fieldTypes (a : Adt) : List TypeVar := a.variants.flatMap Variant.fieldTypes

/-- Hands out types to the fields of one variant after the other. -/
def refill : List Variant → List TypeVar → List Variant
  | [], _ => []
  | v :: rest, types =>
    v.withFieldTypes (types.take v.fields.length) :: refill rest (types.drop v.fields.length)

/-- The data type with other field types. -/
def withFieldTypes (a : Adt) (types : List TypeVar) : Adt :=
  { a with variants := refill a.variants types }

/-- The field types that count for concreteness: those of the variants that can have fields. -/
def inspectedTypes (a : Adt) : List TypeVar :=
  (a.variants.filter fun v => v.kind != .enum).flatMap Variant.fieldTypes

end Adt

/-! ## Shapes -/

/-- A parameter of a function: the pattern it binds and its type. -/
structure Param where
  pattern : NodeId
  type : TypeVar
deriving DecidableEq, Repr

/-- What a type is made of. -/
inductive Shape where
  | bool
  | char
  | str
  | never
  /-- Stands in for a type that could not be found. -/
  | error
  /-- A value of some type that has the bounds of the slot. -/
  | dynamic
  | scalar (scalar : Scalar)
  | tuple (fields : List TypeVar)
  | function (name : String) (params : List Param) (result : TypeVar) (generics : Generics)
  /-- Its parameters are one tuple; captures are the nodes of the bindings it uses. -/
  | closure (parameters result : TypeVar) (generics : Generics) (captures : NodeSet)
  | adt (adt : Adt)
  /-- The capacity is the node of an expression. -/
  | array (element : TypeVar) (capacity : NodeId)
  | slice (element : TypeVar)
  | reference (base : TypeVar) (mutability : Mutability)
  | rawPointer (base : TypeVar) (mutability : Mutability)
  /-- A generic parameter; the binding of the slot tells what it stands for. -/
  | parameter (name : String) (location : Location)
  /-- An associated type that may not be known yet. -/
  | placeholder (name : String)
  /-- An item of a trait, as seen from a type. -/
  | projection (base : TypeVar) (traitNode item : NodeId) (generics : Generics)
  | functionPointer (params : List TypeVar) (result : TypeVar)
  | infer (state : Inference.State) (location : Location)
deriving DecidableEq

/-- What has to hold of the children of a shape for it to be concrete. -/
inductive Demand where
  /-- The shape decides by itself. -/
  | settled (concrete : Bool)
  /-- All of these are concrete. -/
  | all (children : List TypeVar)
  /-- All of these are concrete; a type met again among them adds nothing. -/
  | fields (children : List TypeVar)
  /-- The parameters are not concrete and the result is. -/
  | closure (parameters result : TypeVar)
deriving DecidableEq, Repr

namespace Shape

def kind : Shape → Kind
  | bool => .bool
  | char => .char
  | str => .str
  | never => .never
  | error => .error
  | dynamic => .dynamic
  | scalar s => s.kind
  | tuple _ => .tuple
  | function .. => .function
  | closure .. => .closure
  | adt _ => .adt
  | array .. => .array
  | slice _ => .slice
  | reference .. => .reference
  | rawPointer .. => .rawPointer
  | parameter .. => .parameter
  | placeholder _ => .placeholder
  | projection .. => .projection
  | functionPointer .. => .functionPointer
  | infer .. => .inferred

/-- The number type, for shapes that are one. -/
def scalar? : Shape → Option Scalar
  | scalar s => some s
  | _ => none

/-- The tuple without fields. -/
def unit : Shape := tuple []

/-- The declared parameter list, for shapes that are declared with one to be substituted. -/
def generics? : Shape → Option Generics
  | function _ _ _ g => some g
  | closure _ _ g _ => some g
  | adt a => some a.generics
  | _ => none

/-- The children that belong to a shape, in order: a copy of the shape copies them as well. -/
def owned : Shape → List TypeVar
  | tuple fields => fields
  | function _ params result _ => params.map Param.type ++ [result]
  | closure parameters _ _ _ => [parameters]
  | adt a => a.fieldTypes
  | _ => []

/-- The shape with other owned children, which must be as many as there were. -/
def withOwned : Shape → List TypeVar → Shape
  | tuple _, vars => tuple vars
  | function name params result generics, vars =>
    function name (params.zipWith (fun p type => { p with type }) vars)
      ((vars.drop params.length).headD result) generics
  | closure parameters result generics captures, vars =>
    closure (vars.headD parameters) result generics captures
  | adt a, vars => adt (a.withFieldTypes vars)
  | shape, _ => shape

/-- What concreteness asks. Fields of enum variants are not looked at, and a data type without
anything to store is concrete unless it waits for arguments. -/
def demand : Shape → Demand
  | parameter .. | projection .. => .settled false
  | function _ params result _ => .all (params.map Param.type ++ [result])
  | functionPointer params result => .all (params ++ [result])
  | adt a =>
    if a.isUnit then .settled (!a.generics.needsSubstitution) else .fields a.inspectedTypes
  | closure parameters result _ _ => .closure parameters result
  | tuple fields => .all fields
  | array element _ => .all [element]
  | slice element => .all [element]
  | reference base _ => .all [base]
  | rawPointer base _ => .all [base]
  | bool | char | str | never | error | dynamic | scalar _ | placeholder _ | infer .. =>
    .settled true

end Shape

namespace Inference.State

/-- The state after meeting a type of some shape; only number types tell something. -/
def meetShape (st : State) (shape : Shape) : State :=
  match shape.scalar? with
  | some s => st.meet s
  | none => st

end Inference.State

end TypeStore
