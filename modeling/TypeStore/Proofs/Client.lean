import TypeStore.Context.Concrete
import TypeStore.Proofs.Range

/-!
# Clients

A client of a store carries out commands, changes slots and asks questions, and the answers hand it
slot ids. `Served` has every store that a client can come to which passes only ids that this store
has handed to it, whatever it does and whatever it is answered. In such a store nothing is out of
range: one action keeps it so (`InRange.perform`), and then so does every run.
-/

namespace TypeStore

/-! ## Questions -/

/-- What can be asked about slots and types. -/
inductive Question where
  /-- Whether a node has a type, and which. -/
  | lookup (n : NodeId)
  /-- The type of a variable. -/
  | typeOf (v : TypeVar)
  /-- What the type of a variable looks like. -/
  | typeSlot (v : TypeVar)
  /-- A variable for a node. -/
  | varFor (n : NodeId)
  /-- A variable for the node of a slot. -/
  | varOf (i : SlotId)
  /-- What a slot looks like. -/
  | slot (i : SlotId)
  | builtins
  | isBuiltin (i : SlotId)
  | findBuiltin (text : String)
  | terminal (i : SlotId)
  | parameterTarget (i : SlotId)
  | placeholderIsKnown (i : SlotId)
  | placeholderTarget (i : SlotId)
  | concrete (i : SlotId)
  | needsSubstitution (i : SlotId)
  | boundCount (i : SlotId)
  | render (i : SlotId)
  /-- The text of a slot after what a buffer holds. -/
  | write (i : SlotId) (buffer : String)
  | inferenceState (i : SlotId)
  | fallback (i : SlotId)

/-- What a client is told. -/
inductive Answer where
  | reply (r : Reply)
  | slots (is : List SlotId)
  | content (s : Slot)
  | var (v : TypeVar)
  | flag (b : Bool)
  | number (n : Nat)
  | text (s : String)
  | state (st : Option Inference.State)

/-- The slot ids that an answer hands out. -/
def Answer.handed : Answer → List SlotId
  | reply (.slot i) => [i]
  | slots is => is
  | _ => []

namespace Context

def ask (c : Context) : Question → Except Fault Answer
  | .lookup n => .ok (.slots (c.typeOf? n).toList)
  | .typeOf v => (c.typeOf v.node).map fun i => .slots [i]
  | .typeSlot v => (c.typeOf v.node >>= c.slot).map .content
  | .varFor n => (c.varFor n).map .var
  | .varOf i => (c.varOf i).map .var
  | .slot i => (c.slot i).map .content
  | .builtins => .ok (.slots c.builtins.slots)
  | .isBuiltin i => .ok (.flag (c.isBuiltin i))
  | .findBuiltin text => (c.findBuiltin text).map fun r => .slots r.toList
  | .terminal i => (c.terminal i).map fun j => .slots [j]
  | .parameterTarget i => (c.parameterTarget i).map fun j => .slots [j]
  | .placeholderIsKnown i => (c.placeholderIsKnown i).map .flag
  | .placeholderTarget i => (c.placeholderTarget i).map fun j => .slots [j]
  | .concrete i => (c.concrete i).map .flag
  | .needsSubstitution i => (c.needsSubstitution i).map .flag
  | .boundCount i => (c.boundCount i).map .number
  | .render i => (c.render i).map .text
  | .write i buffer => (Writing.text (c.write i buffer)).map .text
  | .inferenceState i => (c.inferenceState? i).map .state
  | .fallback i => (c.fallback i).map fun r => .slots r.toList

end Context

/-! ## Actions -/

/-- What a client can do with a store. -/
inductive Action where
  | command (command : Command)
  /-- Change a slot in place, in whatever way. -/
  | edit (i : SlotId) (change : Slot → Slot)
  | ask (question : Question)

/-- The slot ids that a command is given. -/
def Command.slots : Command → List SlotId
  | bindType _ i | bindSite _ i | addBuiltin _ _ i => [i]
  | setNode i _ | addBound i _ | addBounds i _ | absorb i _ => [i]
  | copy i | resolve i => [i]
  | narrow i met => [i, met]
  | _ => []

/-- The slot ids that a question is about. -/
def Question.slots : Question → List SlotId
  | varOf i | slot i | isBuiltin i => [i]
  | terminal i | parameterTarget i | placeholderIsKnown i | placeholderTarget i => [i]
  | concrete i | needsSubstitution i | boundCount i | render i | write i _ => [i]
  | inferenceState i | fallback i => [i]
  | _ => []

def Action.slots : Action → List SlotId
  | command c => c.slots
  | edit i _ => [i]
  | ask q => q.slots

/-- The questions that do without a type where there is none: whether a node has one, and the
search by text, which passes over types without a text. -/
def Action.isLenient : Action → Bool
  | ask (.lookup _) | ask (.findBuiltin _) | ask (.fallback _) => true
  | _ => false

namespace Context

/-- What an action answers, and the store afterwards. -/
def perform (c : Context) : Action → Except Fault Answer × Context
  | .command command => ((c.exec command).1.map .reply, (c.exec command).2)
  | .edit i change =>
    let changed := c.attempt (c.modifySlot i change)
    (changed.1.map .reply, changed.2)
  | .ask question => (c.ask question, c)

/-- The slot ids that an action hands out; a fault hands out none. -/
def handsOut (c : Context) (a : Action) : List SlotId :=
  match (c.perform a).1 with
  | .ok answer => answer.handed
  | .error _ => []

/-- The stores that a client comes to which passes only slot ids it was handed before, with the
ids it has been handed on the way. -/
inductive Served : Context → List SlotId → Prop
  | start (config : Config) : Served (new config) []
  | act {c : Context} {handed : List SlotId} (a : Action) (before : Served c handed)
      (honest : ∀ i ∈ a.slots, i ∈ handed) : Served (c.perform a).2 (handed ++ c.handsOut a)

variable {c : Context}

/-- What an action does to a store in which nothing is out of range. -/
structure Advances (c : Context) (answer : Except Fault Answer) (c' : Context) : Prop where
  inRange : c'.InRange
  size : c.size ≤ c'.size
  answer : Yields c.Grounded (fun a => ∀ i ∈ a.handed, c'.Has i) answer

/-! ## Commands -/

theorem Advances.attempt (h : c.InRange) {changed : Except Fault Context}
    (hc : Yields c.Grounded (fun c' => c'.InRange ∧ c.size ≤ c'.size) changed) :
    c.Advances ((c.attempt changed).1.map .reply) (c.attempt changed).2 := by
  cases changed with
  | ok c' => exact ⟨hc.1, hc.2, List.forall_mem_nil _⟩
  | error f => exact ⟨h, Nat.le_refl _, hc⟩

/-- A change that cannot fail. -/
theorem Advances.done {c' : Context} (hc : c'.InRange ∧ c.size ≤ c'.size) :
    c.Advances (.ok (.reply .done)) c' :=
  ⟨hc.1, hc.2, List.forall_mem_nil _⟩

/-- A copy, of a slot or of a variable. -/
theorem Advances.finish {α : Type} (h : c.InRange) {x : Copying α} {reply : α → Reply}
    (steps : CopySteps c ((x.after (.start c)).commit c))
    (hx : RunYields c.Grounded (fun a d => ∀ i ∈ (Answer.reply (reply a)).handed,
      (d.commit c).Has i) (x (.start c))) :
    c.Advances (((c.finish x).1.map reply).map .reply) (c.finish x).2 := by
  obtain ⟨hrange, hsize, hanswer⟩ := h.finish
    (Q := fun a c' => ∀ i ∈ (Answer.reply (reply a)).handed, c'.Has i) steps hx
  refine ⟨hrange, hsize, ?_⟩
  exact (hanswer.map fun a ha => ha).map fun _ ha => ha

theorem InRange.exec (h : c.InRange) {command : Command} (hs : ∀ i ∈ command.slots, c.Has i) :
    c.Advances ((c.exec command).1.map .reply) (c.exec command).2 := by
  -- the tables of a store that records something are those of the store before
  have hrecord : ∀ {changed : Except Fault Context}, Yields Refusal c.SameTypes changed →
      c.Advances ((c.attempt changed).1.map .reply) (c.attempt changed).2 :=
    fun hc => .attempt h (hc.imp (fun _ hf => hf.grounded) fun _ hc' => h.sameTypes hc')
  cases command with
  | mint | takeDiagnostics => exact ⟨⟨h.types, h.builtins⟩, Nat.le_refl _, List.forall_mem_nil _⟩
  | allocate s =>
    exact ⟨h.allocate s, size_le_allocate c s, List.forall_mem_singleton.mpr (has_nextSlot c s)⟩
  | register s =>
    exact ⟨h.register s, size_le_allocate c s, List.forall_mem_singleton.mpr (has_nextSlot c s)⟩
  | bindType n i => exact .done ⟨h.bindType n (hs i List.mem_cons_self), Nat.le_refl _⟩
  | bindSite site i => exact .done ⟨h.bindType site.node (hs i List.mem_cons_self), Nat.le_refl _⟩
  | addBuiltin n nameNode i =>
    exact .done ⟨h.addBuiltin n nameNode (hs i List.mem_cons_self), Nat.le_refl _⟩
  | setNode i _ | addBound i _ | addBounds i _ | absorb i _ =>
    exact .attempt h (h.modifySlot (hs i List.mem_cons_self) _)
  | narrow i met =>
    exact .attempt h (h.narrow (hs i List.mem_cons_self)
      (hs met (List.mem_cons_of_mem _ List.mem_cons_self)))
  | resolve i =>
    obtain ⟨hrange, hsize, hanswer⟩ := h.resolve (hs i List.mem_cons_self)
    refine ⟨hrange, hsize, (hanswer.map fun j hj => ?_).map fun _ ha => ha⟩
    exact List.forall_mem_singleton.mpr hj
  | copy i =>
    have hrun := grounded_copySlot (d := .start c) h (c.config.recursionLimit + 1)
      (hs i List.mem_cons_self)
    refine .finish h (steps_copy c i) (hrun.imp fun j d hj => ?_)
    exact List.forall_mem_singleton.mpr hj.2
  | copyVar v =>
    have hrun := grounded_copyChild (d := .start c) h
      (fun _ _ hd hi => grounded_copySlot hd c.config.recursionLimit hi) v
    exact .finish h (steps_copyVar c v) (hrun.imp fun _ _ _ => List.forall_mem_nil _)
  | recordPath n path => exact hrecord (yields_recordPath c n path)
  | recordAdjustments n steps => exact hrecord (yields_recordAdjustments c n steps)
  | addEnumItem parent item => exact hrecord (yields_addEnumItem c parent item)
  | mapPlaceholder | unmapPlaceholder => exact .done ⟨⟨h.types, h.builtins⟩, Nat.le_refl _⟩
  | _ => exact .done (h.sameTypes (sameTypes_exec rfl))

/-! ## Answers to questions -/

section Answers

variable {α : Type} {P : Fault → Prop}

theorem yields_one {x : Except Fault SlotId} (hx : Yields P c.Has x) :
    Yields P (fun a => ∀ i ∈ a.handed, c.Has i) (x.map fun j => Answer.slots [j]) :=
  hx.map fun _ hj => List.forall_mem_singleton.mpr hj

theorem yields_option {x : Except Fault (Option SlotId)}
    (hx : Yields P (fun r => ∀ i ∈ r, c.Has i) x) :
    Yields P (fun a => ∀ i ∈ a.handed, c.Has i) (x.map fun r => Answer.slots r.toList) :=
  hx.map fun _ hr k hk => hr k (Option.mem_toList.mp hk)

/-- An answer that hands out nothing. -/
theorem yields_none {x : Except Fault α} {Q : α → Prop} {answer : α → Answer} (hx : Yields P Q x)
    (hnone : ∀ a, (answer a).handed = []) :
    Yields P (fun a => ∀ i ∈ a.handed, c.Has i) (x.map answer) := by
  refine hx.map fun a _ => ?_
  rw [hnone]
  exact List.forall_mem_nil _

end Answers

theorem grounded_varFor (h : c.TypesExist) (n : NodeId) :
    Yields c.Grounded (fun _ => True) (c.varFor n) :=
  (grounded_typeOf h n).bind fun _ _ => trivial

theorem InRange.ask (h : c.InRange) {question : Question} (hs : ∀ i ∈ question.slots, c.Has i) :
    Yields c.Grounded (fun a => ∀ i ∈ a.handed, c.Has i) (c.ask question) := by
  cases question with
  | lookup n => exact fun i hi => h.types n i (Option.mem_toList.mp hi)
  | builtins => exact h.builtins
  | isBuiltin i => exact List.forall_mem_nil _
  | typeOf v => exact yields_one (grounded_typeOf h.types v.node)
  | typeSlot v =>
    have hslot : Yields c.Grounded (fun _ => True) (c.typeOf v.node >>= c.slot) :=
      (grounded_typeOf h.types v.node).bind fun _ hi => (yields_slot hi).imp (fun _ hf => hf)
        fun _ _ => trivial
    exact yields_none hslot fun _ => rfl
  | varFor n => exact yields_none (grounded_varFor h.types n) fun _ => rfl
  | findBuiltin text => exact yields_option (h.findBuiltin text)
  | varOf i =>
    have hvar := (yields_slot (hs i List.mem_cons_self)).bind
      fun s _ => grounded_varFor h.types s.node
    exact yields_none hvar fun _ => rfl
  | slot i =>
    exact yields_none (yields_slot (hs i List.mem_cons_self)) fun _ => rfl
  | terminal i => exact yields_one (grounded_terminal h.types (hs i List.mem_cons_self))
  | parameterTarget i =>
    exact yields_one (grounded_parameterTarget h.types (hs i List.mem_cons_self))
  | placeholderIsKnown i =>
    have hknown := (grounded_placeholder (hs i List.mem_cons_self)).bind
      (f := fun s => pure (c.associatedNode? s).isSome) (R := fun _ => True) fun s _ => trivial
    exact yields_none hknown fun _ => rfl
  | placeholderTarget i =>
    exact yields_one (grounded_placeholderTarget h.types (hs i List.mem_cons_self))
  | concrete i =>
    exact yields_none (grounded_concreteWithin h.types (hs i List.mem_cons_self) _ _) fun _ => rfl
  | needsSubstitution i =>
    have hneeds : Yields c.Grounded (fun _ => True) (c.needsSubstitution i) := by
      refine (yields_slot (hs i List.mem_cons_self)).bind fun s _ => ?_
      split
      · exact grounded_of_ne (by simp)
      · trivial
    exact yields_none hneeds fun _ => rfl
  | boundCount i =>
    have hcount : Yields c.Grounded (fun _ => True) (c.boundCount i) :=
      (yields_slot (hs i List.mem_cons_self)).bind fun s _ => trivial
    exact yields_none hcount fun _ => rfl
  | render i =>
    exact yields_none (grounded_render h.types (hs i List.mem_cons_self)) fun _ => rfl
  | write i buffer =>
    have hwrite := grounded_writeSlot h.types (hs i List.mem_cons_self) (c.size + 1) buffer
    exact yields_none hwrite.text fun _ => rfl
  | inferenceState i =>
    have hstate : Yields c.Grounded (fun _ => True) (c.inferenceState? i) := by
      refine (yields_slot (hs i List.mem_cons_self)).bind fun s _ => ?_
      split <;> trivial
    exact yields_none hstate fun _ => rfl
  | fallback i => exact yields_option (h.fallback (hs i List.mem_cons_self))

/-! ## Runs -/

/-- One step: what an action does where it is given slots that are there. -/
theorem InRange.perform (h : c.InRange) {a : Action} (hs : ∀ i ∈ a.slots, c.Has i) :
    c.Advances (c.perform a).1 (c.perform a).2 := by
  cases a with
  | command command => exact h.exec hs
  | edit i change => exact .attempt h (h.modifySlot (hs i List.mem_cons_self) change)
  | ask question => exact ⟨h, Nat.le_refl _, h.ask hs⟩

/-- Slots are never taken away, so an id that was handed out once stays good. -/
theorem Served.inRange {handed : List SlotId} (h : Served c handed) :
    c.InRange ∧ ∀ i ∈ handed, c.Has i := by
  induction h with
  | start config => exact ⟨inRange_new config, List.forall_mem_nil _⟩
  | @act c handed a before honest ih =>
    obtain ⟨hrange, hhanded⟩ := ih
    obtain ⟨hrange', hsize, hanswer⟩ := hrange.perform fun i hi => hhanded i (honest i hi)
    refine ⟨hrange', fun i hi => ?_⟩
    rcases List.mem_append.mp hi with hi | hi
    · exact Nat.lt_of_lt_of_le (hhanded i hi) hsize
    · unfold handsOut at hi
      cases hrun : (c.perform a).1 with
      | ok answer =>
        rw [hrun] at hanswer hi
        exact hanswer i hi
      | error f =>
        rw [hrun] at hi
        cases hi

end Context

end TypeStore
