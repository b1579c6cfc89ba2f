import TypeStore.Context.Basic

/-!
# Resolution

Parameters, placeholders and projections stand for other types. Resolving a slot follows them to
the first slot that stands for itself: a type of another kind, a placeholder whose associated type
is not known, or a parameter that leads back to itself.

Each parameter, placeholder or projection on the way costs one step of a budget, the recursion
limit, so that bindings in a circle end the walk as well. `terminal` treats that as an error,
`resolve` reports it and answers with a new slot that holds the error type.
-/

namespace TypeStore

/-- How far one stage of a walk got. -/
inductive Trail where
  /-- The walk ends at this slot. -/
  | settled (slot : SlotId)
  /-- The walk goes on from this slot with what is left of the budget. -/
  | onward (slot : SlotId) (rest : Nat)
  /-- The budget is spent. -/
  | exhausted
deriving DecidableEq, Repr

namespace Context

/-! ## Parameters -/

/-- Follows parameters that stand for other nodes, a step each; answers with the last slot and
what is left of the budget, `none` if the budget is spent. A parameter that stands for itself
leads to whatever its node has as type. -/
def followBindings (c : Context) : Nat → SlotId → Except Fault (Option (SlotId × Nat))
  | budget, i => do
    let s ← c.slot i
    if s.isRebound then
      match budget with
      | 0 => return none
      | budget + 1 =>
        let next ← c.typeOf s.binding
        if next = i then return some (i, budget)
        else followBindings c budget next
    else if s.isSelfBound then
      return some (← c.typeOf s.binding, budget)
    else return some (i, budget)

/-- Follows the parameter at a slot; the first hop is free. -/
def followParameter (c : Context) (budget : Nat) (i : SlotId) :
    Except Fault (Option (SlotId × Nat)) := do
  let s ← c.slot i
  if s.isParameter then c.followBindings budget (← c.typeOf s.binding)
  else throw (.error (.misuse s.node "parameter resolution on a non-parameter type"))

/-- What the parameter at a slot stands for. -/
def parameterTarget (c : Context) (i : SlotId) : Except Fault SlotId := do
  match ← c.followParameter c.config.recursionLimit i with
  | some (j, _) => return j
  | none => throw (c.limitFault i)

/-! ## Placeholders -/

/-- The node of the associated type a slot stands for, if it is known. -/
def associatedNode? (c : Context) (s : Slot) : Option NodeId :=
  c.facts.associatedTypes[s.binding]?

/-- The placeholder at a slot. -/
def placeholder (c : Context) (i : SlotId) : Except Fault Slot := do
  let s ← c.slot i
  match s.shape with
  | .placeholder _ => return s
  | _ => throw (.error (.misuse s.node "placeholder resolution on a non-placeholder type"))

/-- Whether the associated type of the placeholder at a slot is known. -/
def placeholderIsKnown (c : Context) (i : SlotId) : Except Fault Bool := do
  let s ← c.placeholder i
  return (c.associatedNode? s).isSome

/-- The associated type of the placeholder at a slot. -/
def placeholderTarget (c : Context) (i : SlotId) : Except Fault SlotId := do
  let s ← c.placeholder i
  match c.associatedNode? s with
  | some n => c.typeOf n
  | none => throw (.error (.unmappedPlaceholder s.node))

/-! ## Walks -/

/-- One stage of a walk from a slot, whose own step is paid for. -/
def stage (c : Context) (budget : Nat) (i : SlotId) (s : Slot) : Except Fault Trail :=
  match s.shape with
  | .parameter .. => do
    match ← c.followParameter budget i with
    | some (j, rest) => if j = i then return .settled i else return .onward j rest
    | none => return .exhausted
  | .placeholder _ =>
    match c.associatedNode? s with
    | none => .ok (.settled i)
    | some n => do return .onward (← c.typeOf n) budget
  | .projection base _ _ _ => do return .onward (← c.typeOf base.node) budget
  | _ => .ok (.settled i)

/-- Walks from a slot to the end, `none` if the budget is spent on the way. Every stage pays at
least one step, so as many rounds as there are steps are enough. -/
def walk (c : Context) : Nat → Nat → SlotId → Except Fault (Option SlotId)
  | rounds, budget, i => do
    let s ← c.slot i
    if s.kind.isIndirect then
      match rounds, budget with
      | rounds + 1, budget + 1 =>
        match ← c.stage budget i s with
        | .settled j => return some j
        | .onward j rest => walk c rounds rest j
        | .exhausted => return none
      | _, _ => return none
    else return some i

/-- The walk that the recursion limit allows. -/
def walkFrom (c : Context) (i : SlotId) : Except Fault (Option SlotId) :=
  c.walk c.config.recursionLimit c.config.recursionLimit i

/-- The slot a slot stands for; spending the whole budget is an error. -/
def terminal (c : Context) (i : SlotId) : Except Fault SlotId := do
  match ← c.walkFrom i with
  | some j => return j
  | none => throw (c.limitFault i)

/-- The location at which a resolution that failed is reported: the one recorded for the node, or
else the one of the declaration. -/
def reportLocation (c : Context) (s : Slot) : Location :=
  c.facts.locations[s.node]?.getD s.declaration.location

/-- The slot a slot stands for; spending the whole budget is reported and answered by a new slot
that holds the error type. -/
def resolve (c : Context) (i : SlotId) : Except Fault SlotId × Context :=
  match c.walkFrom i with
  | .error f => (.error f, c)
  | .ok (some j) => (.ok j, c)
  | .ok none =>
    match c.slot i with
    | .error f => (.error f, c)
    | .ok s =>
      let d := Diagnostic.limitExceeded s.node (c.reportLocation s) c.config.recursionLimit
      let (j, c) := (c.report d).allocate (.new s.node .error)
      (.ok j, c)

/-! ## Steps -/

section Steps

variable {c : Context} {i : SlotId} {s : Slot} (hs : c.slot? i = some s)

include hs

/-- One round of following a binding. -/
theorem followBindings_of_slot? (budget : Nat) :
    c.followBindings budget i =
      if s.isRebound then
        match budget with
        | 0 => .ok none
        | budget + 1 => c.typeOf s.binding >>= fun next =>
          if next = i then .ok (some (i, budget)) else c.followBindings budget next
      else if s.isSelfBound then c.typeOf s.binding >>= fun j => .ok (some (j, budget))
      else .ok (some (i, budget)) := by
  rw [followBindings, slot_eq_ok_iff.mpr hs]
  rfl

theorem followBindings_of_direct (hrebound : s.isRebound = false)
    (hself : s.isSelfBound = false) (budget : Nat) :
    c.followBindings budget i = .ok (some (i, budget)) := by
  rw [followBindings_of_slot? hs]
  simp [hrebound, hself]

theorem followBindings_of_selfBound (hself : s.isSelfBound = true) (budget : Nat) :
    c.followBindings budget i = c.typeOf s.binding >>= fun j => .ok (some (j, budget)) := by
  rw [followBindings_of_slot? hs]
  simp [Slot.isRebound_of_isSelfBound hself, hself]

theorem followBindings_zero_of_rebound (hrebound : s.isRebound = true) :
    c.followBindings 0 i = .ok none := by
  rw [followBindings_of_slot? hs, if_pos hrebound]

theorem followBindings_succ_of_rebound (hrebound : s.isRebound = true) (budget : Nat) :
    c.followBindings (budget + 1) i = c.typeOf s.binding >>= fun next =>
      if next = i then .ok (some (i, budget)) else c.followBindings budget next := by
  rw [followBindings_of_slot? hs, if_pos hrebound]

theorem followBindings_succ_of_ne (hrebound : s.isRebound = true)
    (hne : c.typeOf? s.binding ≠ some i) (budget : Nat) :
    c.followBindings (budget + 1) i = c.typeOf s.binding >>= c.followBindings budget := by
  rw [followBindings_succ_of_rebound hs hrebound]
  cases htype : c.typeOf? s.binding with
  | none => simp only [typeOf_of_none htype, bind, Except.bind]
  | some next =>
    have hnext : next ≠ i := by
      rintro rfl
      exact hne htype
    simp only [typeOf_eq_ok_iff.mpr htype, bind, Except.bind, if_neg hnext]

theorem followParameter_of_isParameter (hparameter : s.isParameter = true) (budget : Nat) :
    c.followParameter budget i = c.typeOf s.binding >>= c.followBindings budget := by
  rw [followParameter, slot_eq_ok_iff.mpr hs]
  simp [bind, Except.bind, hparameter]

/-- One round of a walk. -/
theorem walk_of_slot? (rounds budget : Nat) :
    c.walk rounds budget i =
      if s.kind.isIndirect then
        match rounds, budget with
        | rounds + 1, budget + 1 => c.stage budget i s >>= fun trail =>
          match trail with
          | .settled j => .ok (some j)
          | .onward j rest => c.walk rounds rest j
          | .exhausted => .ok none
        | _, _ => .ok none
      else .ok (some i) := by
  rw [walk, slot_eq_ok_iff.mpr hs]
  rfl

theorem walk_of_direct (hdirect : s.kind.isIndirect = false) (rounds budget : Nat) :
    c.walk rounds budget i = .ok (some i) := by
  rw [walk_of_slot? hs]
  simp [hdirect]

theorem walk_zero_of_indirect (hindirect : s.kind.isIndirect = true) (rounds : Nat) :
    c.walk rounds 0 i = .ok none := by
  rw [walk_of_slot? hs, if_pos hindirect]
  cases rounds <;> rfl

theorem walk_succ_of_indirect (hindirect : s.kind.isIndirect = true) (rounds budget : Nat) :
    c.walk (rounds + 1) (budget + 1) i = c.stage budget i s >>= fun trail =>
      match trail with
      | .settled j => .ok (some j)
      | .onward j rest => c.walk rounds rest j
      | .exhausted => .ok none := by
  rw [walk_of_slot? hs, if_pos hindirect]

omit hs

theorem stage_of_isParameter (hparameter : s.isParameter = true) (budget : Nat) :
    c.stage budget i s = c.followParameter budget i >>= fun r =>
      match r with
      | some (j, rest) => if j = i then .ok (.settled i) else .ok (.onward j rest)
      | none => .ok .exhausted := by
  obtain ⟨name, location, hshape⟩ := Slot.isParameter_iff.mp hparameter
  obtain ⟨node, binding, declaration, bounds, absorbed, shape⟩ := s
  cases hshape
  rfl

theorem stage_of_placeholder {name : String} (hshape : s.shape = .placeholder name)
    (budget : Nat) :
    c.stage budget i s =
      match c.associatedNode? s with
      | some n => c.typeOf n >>= fun j => .ok (.onward j budget)
      | none => .ok (.settled i) := by
  rw [stage, hshape]
  cases c.associatedNode? s <;> rfl

theorem stage_of_projection {base : TypeVar} {traitNode item : NodeId} {generics : Generics}
    (hshape : s.shape = .projection base traitNode item generics) (budget : Nat) :
    c.stage budget i s = c.typeOf base.node >>= fun j => .ok (.onward j budget) := by
  obtain ⟨node, binding, declaration, bounds, absorbed, shape⟩ := s
  cases hshape
  rfl

end Steps

end Context

end TypeStore
