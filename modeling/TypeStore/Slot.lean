import TypeStore.Shape
import TypeStore.Bound

/-!
# Slots

A slot is one instance of a type as the store keeps it. Two instances may have been made for the
same node, for instance a type and its copy; the slot id tells them apart.
-/

namespace TypeStore

/-- The position of a slot in the store. -/
@[ext]
structure SlotId where
  index : Nat
deriving DecidableEq, Repr

namespace SlotId

def debugText (i : SlotId) : String :=
  "Idx(" ++ toString i.index ++ ")"

end SlotId

namespace Declaration

/-- Neither path nor location. -/
def none : Declaration := ⟨.empty, .unknown⟩

/-- A location only, for types without a name. -/
def located (location : Location) : Declaration := ⟨.empty, location⟩

/-- The declaration up to what its path leaves open: see `Path.bare`. -/
def bare (d : Declaration) : Declaration := { d with path := d.path.bare }

/-- Same names and same location. -/
def agrees (d e : Declaration) : Bool := d.bare == e.bare

end Declaration

/-- One instance of a type. -/
structure Slot where
  /-- The node the instance was made for. -/
  node : NodeId
  /-- The node for which it answers. A parameter with a binding other than its own node stands for
  the type of that node. -/
  binding : NodeId
  declaration : Declaration
  bounds : Bounds
  /-- Nodes of the instances that were merged into this one. -/
  absorbed : NodeSet
  shape : Shape
deriving DecidableEq

namespace Slot

/-- An instance that answers for a node of its own choice, bare of everything else. -/
def bound (node binding : NodeId) (shape : Shape) : Slot :=
  { node, binding, declaration := .none, bounds := ∅, absorbed := ∅, shape }

/-- An instance that answers for its own node. -/
def new (node : NodeId) (shape : Shape) : Slot := bound node node shape

def kind (s : Slot) : Kind := s.shape.kind

def isParameter (s : Slot) : Bool :=
  match s.shape with
  | .parameter .. => true
  | _ => false

def isInfer (s : Slot) : Bool :=
  match s.shape with
  | .infer .. => true
  | _ => false

theorem isInfer_iff {s : Slot} :
    s.isInfer = true ↔ ∃ state location, s.shape = .infer state location := by
  unfold isInfer
  split <;> simp_all

theorem isInfer_eq_false {s : Slot}
    (h : ∀ state location, s.shape = .infer state location → False) : s.isInfer = false := by
  rw [Bool.eq_false_iff, Ne, isInfer_iff]
  rintro ⟨state, location, hs⟩
  exact h state location hs

theorem isInfer_congr {s t : Slot} (h : t.shape = s.shape) : t.isInfer = s.isInfer := by
  rw [isInfer, h]
  rfl

theorem isParameter_iff {s : Slot} :
    s.isParameter = true ↔ ∃ name location, s.shape = .parameter name location := by
  unfold isParameter
  split <;> simp_all

/-- The three kinds of types that stand for another type. -/
theorem isIndirect_iff {s : Slot} :
    s.kind.isIndirect = true ↔ s.isParameter = true ∨ (∃ name, s.shape = .placeholder name) ∨
      ∃ base traitNode item generics, s.shape = .projection base traitNode item generics := by
  rw [isParameter_iff]
  unfold kind
  cases s.shape with
  | scalar k => cases k <;> simp [Shape.kind, Scalar.kind, Kind.isIndirect]
  | _ => simp [Shape.kind, Kind.isIndirect]

/-- A parameter that stands for the type of another node. -/
def isRebound (s : Slot) : Bool := s.isParameter && s.node != s.binding

/-- A parameter that stands for itself. -/
def isSelfBound (s : Slot) : Bool := s.isParameter && s.node == s.binding

theorem isParameter_of_isRebound {s : Slot} (h : s.isRebound = true) : s.isParameter = true := by
  simp only [isRebound, Bool.and_eq_true] at h
  exact h.1

theorem isRebound_of_isSelfBound {s : Slot} (h : s.isSelfBound = true) : s.isRebound = false := by
  simp_all [isSelfBound, isRebound]

/-- The number of bounds written on a parameter; other types have none to count. -/
def boundCount (s : Slot) : Nat := if s.isParameter then s.bounds.size else 0

end Slot

/-! ## Equality by names -/

/-- The variant with its declaration up to names. -/
def Variant.bare (v : Variant) : Variant := { v with declaration := v.declaration.bare }

/-- The data type with its declarations up to names. -/
def Adt.bare (a : Adt) : Adt := { a with variants := a.variants.map Variant.bare }

/-- The shape with its declarations up to names. -/
def Shape.bare : Shape → Shape
  | .adt a => .adt a.bare
  | shape => shape

/-- The bound with its path up to names. -/
def Bound.bare (b : Bound) : Bound := { b with path := b.path.bare }

namespace Slot

/-- The slot with every path up to names. -/
def bare (s : Slot) : Slot :=
  { s with
    declaration := s.declaration.bare
    bounds := ⟨s.bounds.toList.map Bound.bare, by
      rw [List.map_map]
      exact s.bounds.distinct⟩
    shape := s.shape.bare }

/-- Equal slots, where paths count by their names. -/
def agrees (s t : Slot) : Bool := s.bare == t.bare

end Slot

end TypeStore
