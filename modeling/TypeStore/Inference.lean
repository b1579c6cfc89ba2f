import TypeStore.Kind

/-!
# Inference variables

A type that is still to be found has a category and a hint. Meeting a number type narrows both,
and `State.default?` names the type a variable falls back to if nothing else decides.
-/

namespace TypeStore.Inference

/-- What an inference variable may still become. -/
inductive Category where
  /-- The type of an integer literal. -/
  | integral
  /-- The type of a floating point literal. -/
  | float
  /-- Any type. -/
  | general
deriving DecidableEq, Repr

inductive Sign where
  | signed
  | unsigned
deriving DecidableEq, Repr

/-- What the fallback should look like; `none` where nothing is known. -/
structure Hint where
  kind : Kind
  sign : Option Sign
  size : Option Width
deriving DecidableEq, Repr

namespace Hint

/-- Nothing is known yet. -/
def unknown : Hint := ⟨.error, none, none⟩

end Hint

/-- Category and hint of one inference variable. -/
structure State where
  category : Category
  hint : Hint
deriving DecidableEq, Repr

namespace State

/-- A variable that has met nothing yet. -/
def fresh (category : Category) : State := ⟨category, .unknown⟩

/-- The state after meeting a number type. The pointer-sized integers leave sign and size alone;
every other number type settles category and hint. -/
def meet (st : State) : Scalar → State
  | .usize => ⟨.integral, { st.hint with kind := .usize }⟩
  | .isize => ⟨.integral, { st.hint with kind := .isize }⟩
  | .int w => ⟨.integral, ⟨.int, some .signed, some w⟩⟩
  | .uint w => ⟨.integral, ⟨.uint, some .unsigned, some w⟩⟩
  | .float w => ⟨.float, ⟨.float, some .signed, some w.toWidth⟩⟩

/-- The number type the variable falls back to. Integers are signed and 32 bits wide and floats
64 bits wide unless the hint says otherwise; a variable of any category has no fallback. -/
def default? (st : State) : Option Scalar :=
  match st.category with
  | .general => none
  | .float => some (.float (if st.hint.size = some .w32 then .w32 else .w64))
  | .integral =>
    match st.hint.kind with
    | .int => some (.int (st.hint.size.getD .w32))
    | .uint => some (.uint (st.hint.size.getD .w32))
    | .usize => some .usize
    | .isize => some .isize
    | _ => some (.int .w32)

theorem default?_eq_none_iff {st : State} : st.default? = none ↔ st.category = .general := by
  unfold default?
  split
  · simp_all
  · simp_all
  · split <;> simp_all

end State

end TypeStore.Inference
