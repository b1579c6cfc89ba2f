import TypeStore.Context.Basic

/-!
# Copies

A copy is a new slot with the same node, binding, declaration, bounds and absorbed nodes. The
children that a shape owns are copied along, and each copied child becomes the type of its node;
builtin types are shared. An inference variable is copied under a fresh node, so that it can be
told from the one it was copied from.

A copy in the making is a draft: it extends the arena and mints nodes, but what it would write
into the tables is only noted down. The notes are written when the whole copy is made and thrown
away if it fails.
-/

namespace TypeStore

/-- A copy in the making. The notes have the latest one first. -/
structure Draft where
  arena : Array Slot
  supply : NodeSupply
  bindings : List (NodeId × SlotId)
  locations : List (NodeId × Location)

/-- Works on a draft and may fail. -/
abbrev Copying := EStateM Fault Draft

namespace Draft

/-- The draft in which nothing is done yet. -/
def start (c : Context) : Draft := ⟨c.arena, c.supply, [], []⟩

/-- Writes down what a finished draft noted, oldest note first. -/
def commit (d : Draft) (c : Context) : Context :=
  { c with
    arena := d.arena
    supply := d.supply
    types := d.bindings.foldr (fun note types => types.insert note.1 note.2) c.types
    facts := { c.facts with
      locations := d.locations.foldr (fun note locations => locations.insert note.1 note.2)
        c.facts.locations } }

/-- Forgets what a draft noted; slots and nodes that were used up stay so. -/
def abandon (d : Draft) (c : Context) : Context :=
  { c with arena := d.arena, supply := d.supply }

end Draft

namespace Slot

/-- The copy of an inference variable under another node. -/
def renamedInfer (s : Slot) (node : NodeId) (state : Inference.State) (location : Location) :
    Slot :=
  { node, binding := node
    declaration := .located location
    bounds := ∅
    absorbed := s.absorbed.insert s.node
    shape := .infer state location }

/-- The copy of a slot of any other kind, with its owned children replaced. -/
def withOwned (s : Slot) (vars : List TypeVar) : Slot :=
  { s with
    bounds := .ofList s.bounds.toList
    shape := s.shape.withOwned vars }

theorem isInfer_withOwned (s : Slot) (vars : List TypeVar) :
    (s.withOwned vars).isInfer = s.isInfer := by
  obtain ⟨node, binding, declaration, bounds, absorbed, shape⟩ := s
  cases shape <;> rfl

end Slot

/-! ## Steps of a copy -/

namespace Copying

/-- The slot with an id. -/
@[noinline]
def slot (i : SlotId) : Copying Slot := fun d =>
  match d.arena[i.index]? with
  | some s => .ok s d
  | none => .error (.missingSlot i) d

/-- The type of a variable: the latest one noted, or else the one in the table. -/
@[noinline]
def target (c : Context) (v : TypeVar) : Copying SlotId := fun d =>
  match d.bindings.lookup v.node with
  | some i => .ok i d
  | none =>
    match c.typeOf v.node with
    | .ok i => .ok i d
    | .error f => .error f d

/-- Puts a slot into the arena of the draft. -/
@[noinline]
def push (s : Slot) : Copying SlotId := fun d =>
  .ok (Context.nextSlot d.arena) { d with arena := d.arena.push s }

/-- Notes a slot as the new type of its node and answers with a variable for that node. -/
@[noinline]
def adopt (i : SlotId) : Copying TypeVar := do
  let s ← slot i
  modify fun d => { d with bindings := (s.node, i) :: d.bindings }
  return ⟨s.node⟩

/-- Copies an inference variable under a fresh node, which gets the location recorded for the
node of the variable. -/
@[noinline]
def renameInfer (c : Context) (s : Slot) (state : Inference.State) (location : Location) :
    Copying SlotId := fun d =>
  let (node, supply) := d.supply.fresh
  let i := Context.nextSlot d.arena
  .ok i
    { arena := d.arena.push (s.renamedInfer node state location)
      supply
      bindings := (node, i) :: d.bindings
      locations :=
        match c.facts.locations[s.node]? with
        | some recorded => (node, recorded) :: d.locations
        | none => d.locations }

/-- The refusal to copy anything deeper than a slot. -/
@[noinline]
def tooDeep (c : Context) (i : SlotId) : Copying SlotId := do
  let s ← slot i
  throw (.error (.limitExceeded s.node c.config.recursionLimit))

end Copying

namespace Context

/-! ## Copying -/

/-- Copies what a variable refers to, by `copy`, unless it is builtin. -/
@[specialize]
def copyChild (c : Context) (copy : SlotId → Copying SlotId) (v : TypeVar) : Copying TypeVar := do
  let i ← Copying.target c v
  if c.isBuiltin i then return v
  else
    let j ← copy i
    Copying.adopt j

/-- Copies children from left to right. -/
@[specialize]
def copyChildren (c : Context) (copy : SlotId → Copying SlotId) :
    List TypeVar → Copying (List TypeVar)
  | [] => return []
  | v :: rest => do
    let w ← copyChild c copy v
    let ws ← copyChildren c copy rest
    return w :: ws

/-- Copies a slot, going at most `fuel` levels down. -/
def copySlot (c : Context) : Nat → SlotId → Copying SlotId
  | 0, i => Copying.tooDeep c i
  | fuel + 1, i => do
    let s ← Copying.slot i
    match s.shape with
    | .infer state location => Copying.renameInfer c s state location
    | shape =>
      let vars ← copyChildren c (copySlot c fuel) shape.owned
      Copying.push (s.withOwned vars)

/-- Writes down or abandons a draft, depending on how it ended. -/
def finish {α : Type} (c : Context) (copying : Copying α) : Except Fault α × Context :=
  match copying.run (.start c) with
  | .ok a d => (.ok a, d.commit c)
  | .error f d => (.error f, d.abandon c)

/-- Copies a slot. The copy is not given to the node of the slot, but the copy of an inference
variable is the type of its fresh node. -/
def copy (c : Context) (i : SlotId) : Except Fault SlotId × Context :=
  c.finish (c.copySlot (c.config.recursionLimit + 1) i)

/-- Copies what a variable refers to and makes the copy the type of its node. -/
def copyVar (c : Context) (v : TypeVar) : Except Fault TypeVar × Context :=
  c.finish (c.copyChild (c.copySlot c.config.recursionLimit) v)

end Context

end TypeStore
