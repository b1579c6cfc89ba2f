import TypeStore.Node

/-!
# Generic parameter lists

The parameters in angle brackets that a declaration may carry. A declaration without brackets and
one with empty brackets are told apart, though neither needs a substitution.
-/

namespace TypeStore

/-- What a generic parameter ranges over. -/
inductive GenericKind where
  | lifetime
  | type
  | const
deriving DecidableEq, Repr

/-- One declared parameter. -/
structure GenericParam where
  node : NodeId
  name : String
  kind : GenericKind
deriving DecidableEq, Repr

namespace GenericParam

def text (p : GenericParam) : String :=
  match p.kind with
  | .lifetime => "'" ++ p.name
  | .type => p.name
  | .const => "const " ++ p.name

end GenericParam

/-- The parameter list of a declaration, if it has one. -/
structure Generics where
  params? : Option (List GenericParam)
deriving DecidableEq, Repr

namespace Generics

/-- No list at all. -/
def none : Generics := ⟨.none⟩

instance : Inhabited Generics := ⟨none⟩

/-- The declared parameters. -/
def params (g : Generics) : List GenericParam := g.params?.getD []

/-- Whether arguments have to be supplied before use. -/
def needsSubstitution (g : Generics) : Bool := !g.params.isEmpty

/-- The list in angle brackets, nothing if there are no parameters. -/
def text (g : Generics) : String :=
  if g.needsSubstitution then "<" ++ ", ".intercalate (g.params.map GenericParam.text) ++ ">"
  else ""

end Generics

end TypeStore
