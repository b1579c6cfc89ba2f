import TypeStore.Context.Copy
import TypeStore.Context.Facts
import TypeStore.Context.Inference
import TypeStore.Context.Items
import TypeStore.Context.Resolve

/-!
# Commands

Everything that changes a context is a command, and `exec` carries one out. Its answer is a reply
or a fault, and in either case the context afterwards. A session is a list of commands, one after
the other, whatever they answer.
-/

namespace TypeStore

/-- A change of the context. -/
inductive Command where
  /-- Mint a node. -/
  | mint
  /-- Put a slot into the arena. -/
  | allocate (s : Slot)
  /-- Put a slot into the arena and give it to its node. -/
  | register (s : Slot)
  /-- Give a node its type. -/
  | bindType (node : NodeId) (slot : SlotId)
  /-- Give the node of a site its type. -/
  | bindSite (site : Site) (slot : SlotId)
  | setNode (slot : SlotId) (node : NodeId)
  | addBound (slot : SlotId) (b : Bound)
  | addBounds (slot : SlotId) (bs : List Bound)
  | absorb (slot : SlotId) (node : NodeId)
  | addBuiltin (node nameNode : NodeId) (slot : SlotId)
  | setUnitNode (node : NodeId)
  | copy (slot : SlotId)
  | copyVar (v : TypeVar)
  | resolve (slot : SlotId)
  | narrow (slot met : SlotId)
  | recordPath (node : NodeId) (path : Path)
  | recordLocation (node : NodeId) (location : Location)
  | recordName (use definition : NodeId)
  | recordPredicate (node : NodeId) (b : Bound)
  | mapPlaceholder (placeholder node : NodeId)
  | unmapPlaceholder (placeholder : NodeId)
  | recordAdjustments (node : NodeId) (steps : List Adjustment)
  | recordCapture (closure captured : NodeId)
  | addCrate (crate : CrateId) (record : CrateRecord)
  | setCurrentCrate (crate : CrateId)
  | addModule (record : ModuleRecord)
  | addChild (node : NodeId) (path : Path)
  | setParent (node parent : NodeId)
  | addItem (record : ItemRecord)
  | addEnum (record : EnumRecord)
  | addEnumItem (parent : EnumRecord) (item : EnumItemRecord)
  | setVariant (node variant : NodeId)
  | addImpl (record : ImplRecord)
  | addExternal (record : ExternalRecord)
  | addAssociated (record : AssociatedRecord)
  | takeDiagnostics

/-- What a command answers. -/
inductive Reply where
  | done
  | node (n : NodeId)
  | slot (i : SlotId)
  | var (v : TypeVar)
  | diagnostics (ds : List Diagnostic)

/-- A reply or a fault, and the context afterwards. -/
abbrev Outcome := Except Fault Reply × Context

namespace Context

/-- A change that cannot fail. -/
def done (c : Context) : Outcome := (.ok .done, c)

/-- A change that happens as a whole or not at all. -/
def attempt (c : Context) (changed : Except Fault Context) : Outcome :=
  match changed with
  | .ok c => (.ok .done, c)
  | .error f => (.error f, c)

/-- What holds now, and after the change if it is made, holds after the attempt. -/
theorem attempt_keeps {P : Context → Prop} {c : Context} {changed : Except Fault Context}
    (h : P c) (hchanged : ∀ c', changed = .ok c' → P c') : P (c.attempt changed).2 := by
  cases changed with
  | ok c' => exact hchanged c' rfl
  | error f => exact h

/-- Carries out a command. -/
def exec (c : Context) : Command → Outcome
  | .mint =>
    let (n, c) := c.fresh
    (.ok (.node n), c)
  | .allocate s =>
    let (i, c) := c.allocate s
    (.ok (.slot i), c)
  | .register s =>
    let (i, c) := c.register s
    (.ok (.slot i), c)
  | .bindType node slot => (c.bindType node slot).done
  | .bindSite site slot => (c.bindType site.node slot).done
  | .setNode slot node => c.attempt (c.setNode slot node)
  | .addBound slot b => c.attempt (c.addBound slot b)
  | .addBounds slot bs => c.attempt (c.addBounds slot bs)
  | .absorb slot node => c.attempt (c.absorb slot node)
  | .addBuiltin node nameNode slot => (c.addBuiltin node nameNode slot).done
  | .setUnitNode node => (c.setUnitNode node).done
  | .copy slot =>
    let (answer, c) := c.copy slot
    (answer.map .slot, c)
  | .copyVar v =>
    let (answer, c) := c.copyVar v
    (answer.map .var, c)
  | .resolve slot =>
    let (answer, c) := c.resolve slot
    (answer.map .slot, c)
  | .narrow slot met => c.attempt (c.narrow slot met)
  | .recordPath node path => c.attempt (c.recordPath node path)
  | .recordLocation node location => (c.recordLocation node location).done
  | .recordName use definition => (c.recordName use definition).done
  | .recordPredicate node b => (c.recordPredicate node b).done
  | .mapPlaceholder placeholder node => (c.mapPlaceholder placeholder node).done
  | .unmapPlaceholder placeholder => (c.unmapPlaceholder placeholder).done
  | .recordAdjustments node steps => c.attempt (c.recordAdjustments node steps)
  | .recordCapture closure captured => (c.recordCapture closure captured).done
  | .addCrate crate record => (c.addCrate crate record).done
  | .setCurrentCrate crate => (c.setCurrentCrate crate).done
  | .addModule record => (c.addModule record).done
  | .addChild node path => (c.addChild node path).done
  | .setParent node parent => (c.setParent node parent).done
  | .addItem record => (c.addItem record).done
  | .addEnum record => (c.addEnum record).done
  | .addEnumItem parent item => c.attempt (c.addEnumItem parent item)
  | .setVariant node variant => (c.setVariant node variant).done
  | .addImpl record => (c.addImpl record).done
  | .addExternal record => (c.addExternal record).done
  | .addAssociated record => (c.addAssociated record).done
  | .takeDiagnostics =>
    let (ds, c) := c.takeDiagnostics
    (.ok (.diagnostics ds), c)

/-- The context after a list of commands. -/
def run (c : Context) (commands : List Command) : Context :=
  commands.foldl (fun c command => (c.exec command).2) c

end Context

end TypeStore
