import TypeStore.Adjustment
import TypeStore.Diagnostic.Queue
import TypeStore.Error
import TypeStore.Item

/-!
# The context

The context is the store of one checking session: the arena of slots, which only grows, the table
that gives a node its type, and the tables of facts and items. This module has the data and the
plain reads and writes; the questions about types have modules of their own.

A slot id comes from the arena, but nothing keeps a caller from passing one that does not, so
reading a slot can fail with `Fault.missingSlot`.
-/

namespace TypeStore

/-- What a session is started with. -/
structure Config where
  /-- Steps a resolution may take, and levels a copy or a concreteness check may descend. -/
  recursionLimit : Nat
  /-- The first id that is minted. -/
  firstNode : NodeId
  currentCrate : CrateId
  diagnostics : QueueConfig
deriving DecidableEq, Repr

namespace Config

/-- The usual limits; the ids below seven are left to the caller. -/
def standard : Config := ⟨16384, ⟨7⟩, .unknown, .standard⟩

end Config

/-- The types that are there from the start. -/
structure Builtins where
  /-- Their slots, in the order of creation. -/
  slots : List SlotId
  /-- From the node of the written name to the node of the type. -/
  aliases : NodeMap NodeId
  /-- The written names with their nodes. -/
  names : List (String × NodeId)
  /-- The node of the written name of the empty tuple. -/
  unitNode : Option NodeId

/-- What is known of single nodes beside their types. -/
structure Facts where
  paths : NodeMap Path
  locations : NodeMap Location
  /-- From the use of a name to its definition. -/
  names : NodeMap NodeId
  predicates : NodeMap Bound
  /-- From a placeholder to the node of its associated type. -/
  associatedTypes : NodeMap NodeId
  adjustments : NodeMap (List Adjustment)
  captures : NodeMap NodeSet

/-- What is known of compilation units, modules and items. -/
structure Items where
  crates : Std.TreeMap CrateId CrateRecord
  modules : NodeMap ModuleRecord
  children : NodeMap (List Path)
  /-- From an item to the module it stands in. -/
  parents : NodeMap NodeId
  items : NodeMap ItemRecord
  enums : NodeMap EnumRecord
  enumItems : NodeMap (EnumRecord × EnumItemRecord)
  variants : NodeMap NodeId
  impls : NodeMap ImplRecord
  externals : NodeMap ExternalRecord
  associated : NodeMap AssociatedRecord

/-- The store of one session. -/
structure Context where
  config : Config
  supply : NodeSupply
  currentCrate : CrateId
  arena : Array Slot
  types : NodeMap SlotId
  builtins : Builtins
  facts : Facts
  items : Items
  queue : Queue

namespace Context

/-- A context without any types, not even the builtin ones. -/
def blank (config : Config) : Context where
  config := config
  supply := .startingAt config.firstNode
  currentCrate := config.currentCrate
  arena := #[]
  types := ∅
  builtins := ⟨[], ∅, [], none⟩
  facts := ⟨∅, ∅, ∅, ∅, ∅, ∅, ∅⟩
  items := ⟨∅, ∅, ∅, ∅, ∅, ∅, ∅, ∅, ∅, ∅, ∅⟩
  queue := .new config.diagnostics

/-! ## Reading -/

/-- The number of slots. -/
def size (c : Context) : Nat := c.arena.size

def slot? (c : Context) (i : SlotId) : Option Slot := c.arena[i.index]?

/-- The slot with an id, which a caller must have got from this context. -/
def slot (c : Context) (i : SlotId) : Except Fault Slot :=
  match c.slot? i with
  | some s => .ok s
  | none => .error (.missingSlot i)

def typeOf? (c : Context) (n : NodeId) : Option SlotId := c.types[n]?

/-- The type of a node, which must have one. -/
def typeOf (c : Context) (n : NodeId) : Except Fault SlotId :=
  match c.typeOf? n with
  | some i => .ok i
  | none => .error (.error (.unknownType n))

/-- A variable for a node that has a type. -/
def varFor (c : Context) (n : NodeId) : Except Fault TypeVar := do
  let _ ← c.typeOf n
  return ⟨n⟩

/-- A variable for the node of a slot, which need not have that slot as its type. -/
def varOf (c : Context) (i : SlotId) : Except Fault TypeVar := do
  let s ← c.slot i
  c.varFor s.node

/-- Whether a slot is one of the builtin types. -/
def isBuiltin (c : Context) (i : SlotId) : Bool := c.builtins.slots.contains i

/-- The fault of a walk that reaches a slot after as many steps as are allowed. -/
@[noinline]
def limitFault (c : Context) (i : SlotId) : Fault :=
  match c.slot i with
  | .ok s => .error (.limitExceeded s.node c.config.recursionLimit)
  | .error f => f

/-! ## Writing -/

/-- Mints a node. -/
def fresh (c : Context) : NodeId × Context :=
  let (n, supply) := c.supply.fresh
  (n, { c with supply })

/-- The id of the slot that is put into the arena next; ids are 32 bits wide. -/
def nextSlot (arena : Array Slot) : SlotId := ⟨min arena.size 0xFFFFFFFF⟩

/-- Puts a slot into the arena without giving it to any node. -/
def allocate (c : Context) (s : Slot) : SlotId × Context :=
  (nextSlot c.arena, { c with arena := c.arena.push s })

/-- Gives a node its type; an earlier type of the node is forgotten. -/
def bindType (c : Context) (n : NodeId) (i : SlotId) : Context :=
  { c with types := c.types.insert n i }

/-- Puts a slot into the arena and gives it to its own node. -/
def register (c : Context) (s : Slot) : SlotId × Context :=
  let (i, c) := c.allocate s
  (i, c.bindType s.node i)

/-- Changes one slot in place. -/
def modifySlot (c : Context) (i : SlotId) (f : Slot → Slot) : Except Fault Context :=
  match c.slot? i with
  | some _ => .ok { c with arena := c.arena.modify i.index f }
  | none => .error (.missingSlot i)

/-- Renames the node a slot was made for; the table of types is left alone. -/
def setNode (c : Context) (i : SlotId) (n : NodeId) : Except Fault Context :=
  c.modifySlot i fun s => { s with node := n }

def addBound (c : Context) (i : SlotId) (b : Bound) : Except Fault Context :=
  c.modifySlot i fun s => { s with bounds := s.bounds.add b }

def addBounds (c : Context) (i : SlotId) (bs : List Bound) : Except Fault Context :=
  c.modifySlot i fun s => { s with bounds := s.bounds.addAll bs }

/-- Notes that a slot has taken over what was known of a node. -/
def absorb (c : Context) (i : SlotId) (n : NodeId) : Except Fault Context :=
  c.modifySlot i fun s => { s with absorbed := s.absorbed.insert n }

/-- Queues a diagnostic. -/
def report (c : Context) (d : Diagnostic) : Context :=
  { c with queue := (c.queue.add d).2 }

/-- Hands out the queued diagnostics, ordered by position. -/
def takeDiagnostics (c : Context) : List Diagnostic × Context :=
  let (ds, queue) := c.queue.flush
  (ds, { c with queue })

/-! ## Reads and writes -/

theorem index_lt_of_slot? {c : Context} {i : SlotId} {s : Slot} (h : c.slot? i = some s) :
    i.index < c.size :=
  (Array.getElem?_eq_some_iff.mp h).1

theorem exists_slot?_of_index_lt {c : Context} {i : SlotId} (h : i.index < c.size) :
    ∃ s, c.slot? i = some s :=
  ⟨_, Array.getElem?_eq_getElem h⟩

theorem slot_eq_ok_iff {c : Context} {i : SlotId} {s : Slot} :
    c.slot i = .ok s ↔ c.slot? i = some s := by
  unfold slot
  split <;> simp_all

theorem limitFault_of_slot? {c : Context} {i : SlotId} {s : Slot} (h : c.slot? i = some s) :
    c.limitFault i = .error (.limitExceeded s.node c.config.recursionLimit) := by
  rw [limitFault, slot_eq_ok_iff.mpr h]

theorem typeOf_eq_ok_iff {c : Context} {n : NodeId} {i : SlotId} :
    c.typeOf n = .ok i ↔ c.typeOf? n = some i := by
  unfold typeOf
  split <;> simp_all

theorem typeOf_of_none {c : Context} {n : NodeId} (h : c.typeOf? n = none) :
    c.typeOf n = .error (.error (.unknownType n)) := by
  rw [typeOf, h]

@[simp]
theorem typeOf?_bindType (c : Context) (n k : NodeId) (i : SlotId) :
    (c.bindType n i).typeOf? k = if n = k then some i else c.typeOf? k :=
  NodeMap.getElem?_insert_eq c.types n k i

@[simp]
theorem size_bindType (c : Context) (n : NodeId) (i : SlotId) :
    (c.bindType n i).size = c.size := rfl

@[simp]
theorem next_fresh (c : Context) : c.fresh.2.supply.next.raw = c.supply.next.raw + 1 := rfl

@[simp]
theorem size_allocate (c : Context) (s : Slot) : (c.allocate s).2.size = c.size + 1 :=
  Array.size_push s

@[simp]
theorem supply_allocate (c : Context) (s : Slot) : (c.allocate s).2.supply = c.supply := rfl

theorem slot?_allocate (c : Context) (s : Slot) (i : SlotId) :
    (c.allocate s).2.slot? i = if i.index = c.size then some s else c.slot? i :=
  Array.getElem?_push

/-- A new slot leaves every slot that was there as it was. -/
theorem slot?_allocate_of_some {c : Context} {s t : Slot} {i : SlotId}
    (h : c.slot? i = some t) : (c.allocate s).2.slot? i = some t := by
  rw [slot?_allocate, if_neg (Nat.ne_of_lt (index_lt_of_slot? h)), h]

theorem modifySlot_eq_ok {c c' : Context} {i : SlotId} {f : Slot → Slot}
    (h : c.modifySlot i f = .ok c') : c' = { c with arena := c.arena.modify i.index f } := by
  unfold modifySlot at h
  split at h
  · exact (Except.ok.inj h).symm
  · cases h

theorem slot?_modify (c : Context) (i j : SlotId) (f : Slot → Slot) :
    slot? { c with arena := c.arena.modify i.index f } j
      = if i = j then (c.slot? j).map f else c.slot? j := by
  show (c.arena.modify i.index f)[j.index]? = _
  rw [Array.getElem?_modify]
  cases i
  cases j
  simp only [SlotId.mk.injEq]
  rfl

end Context

end TypeStore
