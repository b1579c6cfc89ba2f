/-!
# Kinds of types

A kind says what sort of type a type is and leaves out what it is made of. Numbers come in fixed
widths, and `Scalar` lists the number types.
-/

namespace TypeStore

inductive Kind where
  | bool
  | char
  | int
  | uint
  | usize
  | isize
  | float
  | closure
  | function
  | inferred
  | never
  | str
  | tuple
  | parameter
  | adt
  | error
  | array
  | projection
  | dynamic
  | functionPointer
  | placeholder
  | slice
  | rawPointer
  | reference
deriving DecidableEq, Repr

namespace Kind

/-- Every kind, in the order of declaration. -/
def all : List Kind :=
  [bool, char, int, uint, usize, isize, float, closure, function, inferred, never, str, tuple,
    parameter, adt, error, array, projection, dynamic, functionPointer, placeholder, slice,
    rawPointer, reference]

/-- The name of a kind in messages. -/
def name : Kind → String
  | bool => "bool"
  | char => "char"
  | int => "int"
  | uint => "uint"
  | usize => "usize"
  | isize => "isize"
  | float => "float"
  | closure => "closure"
  | function => "function"
  | inferred => "inferred"
  | never => "never"
  | str => "str"
  | tuple => "tuple"
  | parameter => "parameter"
  | adt => "adt"
  | error => "error"
  | array => "array"
  | projection => "projection"
  | dynamic => "dynamic"
  | functionPointer => "function pointer"
  | placeholder => "placeholder"
  | slice => "slice"
  | rawPointer => "raw pointer"
  | reference => "reference"

def isSignedInteger : Kind → Bool
  | int | isize => true
  | _ => false

def isInteger : Kind → Bool
  | int | uint | usize | isize => true
  | _ => false

def isFloat : Kind → Bool
  | float => true
  | _ => false

/-- Whether a type of this kind stands for another type. -/
def isIndirect : Kind → Bool
  | parameter | placeholder | projection => true
  | _ => false

end Kind

/-! ## Number types -/

/-- The widths of integers. -/
inductive Width where
  | w8
  | w16
  | w32
  | w64
  | w128
deriving DecidableEq, Repr

namespace Width

def all : List Width := [w8, w16, w32, w64, w128]

def bits : Width → Nat
  | w8 => 8
  | w16 => 16
  | w32 => 32
  | w64 => 64
  | w128 => 128

end Width

/-- The widths of floating point numbers. -/
inductive FloatWidth where
  | w32
  | w64
deriving DecidableEq, Repr

namespace FloatWidth

def all : List FloatWidth := [w32, w64]

/-- The same width as one of the integer widths. -/
def toWidth : FloatWidth → Width
  | w32 => .w32
  | w64 => .w64

def bits (w : FloatWidth) : Nat := w.toWidth.bits

end FloatWidth

/-- The number types. -/
inductive Scalar where
  | int (width : Width)
  | uint (width : Width)
  | float (width : FloatWidth)
  | usize
  | isize
deriving DecidableEq, Repr

namespace Scalar

/-- The name of a number type in source text. -/
def name : Scalar → String
  | int .w8 => "i8"
  | int .w16 => "i16"
  | int .w32 => "i32"
  | int .w64 => "i64"
  | int .w128 => "i128"
  | uint .w8 => "u8"
  | uint .w16 => "u16"
  | uint .w32 => "u32"
  | uint .w64 => "u64"
  | uint .w128 => "u128"
  | float .w32 => "f32"
  | float .w64 => "f64"
  | usize => "usize"
  | isize => "isize"

def kind : Scalar → Kind
  | int _ => .int
  | uint _ => .uint
  | float _ => .float
  | usize => .usize
  | isize => .isize

/-- Every number type. -/
def all : List Scalar :=
  Width.all.map int ++ Width.all.map uint ++ FloatWidth.all.map float ++ [usize, isize]

/-- The number type with a given name. -/
def ofName? (s : String) : Option Scalar :=
  all.find? fun scalar => scalar.name == s

end Scalar

end TypeStore
