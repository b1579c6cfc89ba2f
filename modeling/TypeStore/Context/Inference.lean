import TypeStore.Context.Builtin

/-!
# Inference variables of a context

Inference variables are slots. Letting one meet the type at another slot narrows it in place, and
what it falls back to is one of the builtin types.
-/

namespace TypeStore.Context

/-- The state of the inference variable at a slot. -/
def inferenceState? (c : Context) (i : SlotId) : Except Fault (Option Inference.State) := do
  let s ← c.slot i
  match s.shape with
  | .infer state _ => return some state
  | _ => return none

/-- Lets the inference variable at a slot meet the type at another. -/
def narrow (c : Context) (i met : SlotId) : Except Fault Context := do
  let s ← c.slot i
  match s.shape with
  | .infer state location =>
    let t ← c.slot met
    c.modifySlot i fun s => { s with shape := .infer (state.meetShape t.shape) location }
  | _ => throw (.error (.misuse s.node "scalar hint applied to a non-inference type"))

/-- Narrowing succeeds on inference variables only, and changes the slot in place. -/
theorem narrow_eq_ok {c c' : Context} {i met : SlotId} (h : c.narrow i met = .ok c') :
    ∃ s state location t, c.slot? i = some s ∧ s.shape = .infer state location ∧
      c.slot? met = some t ∧
      c.modifySlot i (fun s => { s with shape := .infer (state.meetShape t.shape) location })
        = .ok c' := by
  unfold narrow at h
  cases hs : c.slot i with
  | error f =>
    rw [hs] at h
    cases h
  | ok s =>
    rw [hs] at h
    dsimp only [bind, Except.bind] at h
    split at h
    · rename_i state location hshape
      cases ht : c.slot met with
      | error f =>
        rw [ht] at h
        cases h
      | ok t =>
        rw [ht] at h
        exact ⟨s, state, location, t, slot_eq_ok_iff.mp hs, hshape, slot_eq_ok_iff.mp ht, h⟩
    · cases h

/-- The builtin type that the inference variable at a slot falls back to, if it has one. -/
def fallback (c : Context) (i : SlotId) : Except Fault (Option SlotId) := do
  let s ← c.slot i
  match s.shape with
  | .infer state _ =>
    match state.default? with
    | some scalar => c.findBuiltin scalar.name
    | none => return none
  | _ => throw (.error (.misuse s.node "default requested for a non-inference type"))

theorem fallback_of_infer {c : Context} {i : SlotId} {s : Slot} {state : Inference.State}
    {location : Location} (hs : c.slot? i = some s) (hshape : s.shape = .infer state location) :
    c.fallback i = match state.default? with
      | some scalar => c.findBuiltin scalar.name
      | none => .ok none := by
  unfold fallback
  rw [slot_eq_ok_iff.mpr hs]
  dsimp only [bind, Except.bind]
  rw [hshape]
  rfl

end TypeStore.Context
