import TypeStore.Proofs.Hops
import TypeStore.Proofs.Limit

/-!
# The end of a resolution

A resolution comes to an end at which a second resolution stays. On the way it does what the
single questions do: it goes on from what a parameter, a placeholder or a projection stands for,
as if it had started there.

Nothing is asked of the table of types. A resolution that has spent a part of its budget on the
way to a slot has less left there than one that starts at it, so what carries the argument is that
a larger budget keeps every end.
-/

namespace TypeStore

namespace Context

variable {c : Context} {i j r : SlotId} {s : Slot} {budget rest : Nat} {trail : Trail}

/-! ## Stages -/

/-- What a stage can do at a slot that stands for another one, as long as the budget lasts. -/
inductive Stage (c : Context) (budget : Nat) (i : SlotId) (s : Slot) : Trail → Prop
  /-- A parameter that leads back to itself. -/
  | back {rest : Nat} (parameter : s.isParameter = true)
      (follow : c.followParameter budget i = .ok (some (i, rest))) :
      Stage c budget i s (.settled i)
  | along {j : SlotId} {rest : Nat} (parameter : s.isParameter = true)
      (follow : c.followParameter budget i = .ok (some (j, rest))) :
      Stage c budget i s (.onward j rest)
  | unknown {name : String} (shape : s.shape = .placeholder name)
      (unknown : c.associatedNode? s = none) : Stage c budget i s (.settled i)
  | associated {j : SlotId} {n : NodeId} {name : String} (shape : s.shape = .placeholder name)
      (known : c.associatedNode? s = some n) (type : c.typeOf n = .ok j) :
      Stage c budget i s (.onward j budget)
  | base {j : SlotId} {base : TypeVar} {traitNode item : NodeId} {generics : Generics}
      (shape : s.shape = .projection base traitNode item generics)
      (type : c.typeOf base.node = .ok j) : Stage c budget i s (.onward j budget)

theorem Stage.of_stage (hindirect : s.kind.isIndirect = true)
    (h : c.stage budget i s = .ok trail) (hlasts : trail ≠ .exhausted) :
    Stage c budget i s trail := by
  rcases Slot.isIndirect_iff.mp hindirect with
    hparameter | ⟨name, hshape⟩ | ⟨base, traitNode, item, generics, hshape⟩
  · rw [stage_of_isParameter hparameter] at h
    obtain ⟨p, hfollow, h⟩ := exists_of_bind_eq_ok h
    cases p with
    | none =>
      cases h
      exact absurd rfl hlasts
    | some p =>
      obtain ⟨j, rest⟩ := p
      dsimp only at h
      by_cases hback : j = i
      · subst hback
        rw [if_pos rfl] at h
        cases h
        exact .back hparameter hfollow
      · rw [if_neg hback] at h
        cases h
        exact .along hparameter hfollow
  · rw [stage_of_placeholder hshape] at h
    cases hknown : c.associatedNode? s with
    | none =>
      rw [hknown] at h
      cases h
      exact .unknown hshape hknown
    | some n =>
      rw [hknown] at h
      obtain ⟨j, htype, h⟩ := exists_of_bind_eq_ok h
      cases h
      exact .associated hshape hknown htype
  · rw [stage_of_projection hshape] at h
    obtain ⟨j, htype, h⟩ := exists_of_bind_eq_ok h
    cases h
    exact .base hshape htype

/-- A stage that settles does so where it is. -/
theorem Stage.eq_of_settled (h : Stage c budget i s (.settled j)) : j = i := by
  cases h with
  | back parameter follow => rfl
  | unknown shape unknown => rfl

theorem Stage.rest_le (hs : c.slot? i = some s) (h : Stage c budget i s (.onward j rest)) :
    rest ≤ budget := by
  cases h with
  | along parameter follow =>
    rw [followParameter_of_isParameter hs parameter] at follow
    obtain ⟨first, -, hrun⟩ := exists_of_bind_eq_ok follow
    exact followBindings_rest_le hrun
  | associated shape known type => exact Nat.le_refl _
  | base shape type => exact Nat.le_refl _

/-! ## Ends -/

/-- From a slot a walk on a budget comes to an end. -/
inductive Arrives (c : Context) : Nat → SlotId → SlotId → Prop
  | direct {budget : Nat} {i : SlotId} {s : Slot} (slot : c.slot? i = some s)
      (direct : s.kind.isIndirect = false) : Arrives c budget i i
  | settled {budget : Nat} {i : SlotId} {s : Slot} (slot : c.slot? i = some s)
      (indirect : s.kind.isIndirect = true) (stage : c.stage budget i s = .ok (.settled i)) :
      Arrives c (budget + 1) i i
  | onward {budget rest : Nat} {i j r : SlotId} {s : Slot} (slot : c.slot? i = some s)
      (indirect : s.kind.isIndirect = true) (stage : c.stage budget i s = .ok (.onward j rest))
      (tail : Arrives c rest j r) : Arrives c (budget + 1) i r

theorem Arrives.of_walk {rounds : Nat} (h : c.walk rounds budget i = .ok (some r)) :
    Arrives c budget i r := by
  induction rounds generalizing budget i with
  | zero =>
    unfold walk at h
    obtain ⟨s, hs, h⟩ := exists_of_bind_eq_ok h
    by_cases hindirect : s.kind.isIndirect = true
    · simp [hindirect, pure, Except.pure] at h
    · simp only [hindirect] at h
      cases h
      exact .direct (slot_eq_ok_iff.mp hs) (by simpa using hindirect)
  | succ rounds ih =>
    have hslot := h
    unfold walk at hslot
    obtain ⟨s, hs, -⟩ := exists_of_bind_eq_ok hslot
    rw [slot_eq_ok_iff] at hs
    cases hindirect : s.kind.isIndirect with
    | false =>
      rw [walk_of_direct hs hindirect] at h
      cases h
      exact .direct hs hindirect
    | true =>
      cases budget with
      | zero =>
        rw [walk_zero_of_indirect hs hindirect] at h
        cases h
      | succ budget =>
        rw [walk_succ_of_indirect hs hindirect] at h
        obtain ⟨trail, hstage, h⟩ := exists_of_bind_eq_ok h
        cases trail with
        | settled j =>
          cases h
          obtain rfl := (Stage.of_stage hindirect hstage (by simp)).eq_of_settled
          exact .settled hs hindirect hstage
        | onward j rest => exact .onward hs hindirect hstage (ih h)
        | exhausted => cases h

theorem Arrives.walk {rounds : Nat} (h : Arrives c budget i r) (hle : budget ≤ rounds) :
    c.walk rounds budget i = .ok (some r) := by
  induction h generalizing rounds with
  | direct slot direct => exact walk_of_direct slot direct rounds _
  | settled slot indirect stage =>
    obtain ⟨rounds, rfl⟩ := Nat.exists_eq_add_of_le' (Nat.one_le_of_lt hle)
    rw [walk_succ_of_indirect slot indirect, stage]
    rfl
  | onward slot indirect stage tail ih =>
    obtain ⟨rounds, rfl⟩ := Nat.exists_eq_add_of_le' (Nat.one_le_of_lt hle)
    have hstage := Stage.of_stage indirect stage (by simp)
    have hrest := hstage.rest_le slot
    rw [walk_succ_of_indirect slot indirect, stage]
    exact ih (by omega)

theorem terminal_eq_ok_iff : c.terminal i = .ok r ↔ Arrives c c.config.recursionLimit i r := by
  constructor
  · intro h
    obtain ⟨p, hwalk, h⟩ := exists_of_bind_eq_ok h
    cases p with
    | none => cases h
    | some j =>
      cases h
      exact .of_walk hwalk
  · intro h
    rw [terminal, walkFrom, h.walk (Nat.le_refl _)]
    rfl

/-- A larger budget keeps the end. -/
theorem Arrives.mono {budget' : Nat} (h : Arrives c budget i r) (hle : budget ≤ budget') :
    Arrives c budget' i r := by
  obtain ⟨k, rfl⟩ := Nat.exists_eq_add_of_le hle
  have hwalk := h.walk (Nat.le_refl budget)
  exact .of_walk ((c.walk_add k budget budget i).ok hwalk (by simp))

/-- A walk that starts at the end stays there. -/
theorem Arrives.stays (h : Arrives c budget i r) : Arrives c budget r r := by
  induction h with
  | direct slot direct => exact .direct slot direct
  | settled slot indirect stage => exact .settled slot indirect stage
  | onward slot indirect stage tail ih =>
    have hrest := (Stage.of_stage indirect stage (by simp)).rest_le slot
    exact ih.mono (by omega)

/-! ## The way through single questions -/

/-- A slot comes to an end by way of what it stands for, if it stands for another one, and else is
its own end. -/
def EndsThrough (c : Context) (i r : SlotId) (s : Slot) : Prop :=
  match s.shape with
  | .parameter .. => ∃ j, c.parameterTarget i = .ok j ∧ c.terminal j = .ok r
  | .placeholder _ =>
    (c.placeholderIsKnown i = .ok false ∧ r = i) ∨
      ∃ j, c.placeholderTarget i = .ok j ∧ c.terminal j = .ok r
  | .projection base _ _ _ => ∃ j, c.typeOf base.node = .ok j ∧ c.terminal j = .ok r
  | _ => r = i

/-- A parameter that was followed on a part of the limit has what was found as its target. -/
theorem parameterTarget_of_follow (h : c.followParameter budget i = .ok (some (j, rest)))
    (hle : budget ≤ c.config.recursionLimit) : c.parameterTarget i = .ok j := by
  obtain ⟨k, hk⟩ := Nat.exists_eq_add_of_le hle
  have hmore := (c.followParameter_add k budget i).ok h (by simp)
  rw [parameterTarget, hk, hmore]
  rfl

theorem placeholder_of_shape {name : String} (hs : c.slot? i = some s)
    (hshape : s.shape = .placeholder name) : c.placeholder i = .ok s := by
  rw [placeholder, slot_eq_ok_iff.mpr hs]
  simp [bind, Except.bind, pure, Except.pure, hshape]

/-- A stage that settles is at a parameter that is its own target, or at a placeholder whose
associated type is not known. -/
theorem Stage.endsThrough_settled (h : Stage c budget i s (.settled i)) (hs : c.slot? i = some s)
    (hle : budget ≤ c.config.recursionLimit) (hi : c.terminal i = .ok i) :
    c.EndsThrough i i s := by
  unfold EndsThrough
  cases h with
  | back parameter follow =>
    obtain ⟨name, location, hshape⟩ := Slot.isParameter_iff.mp parameter
    rw [hshape]
    exact ⟨i, parameterTarget_of_follow follow hle, hi⟩
  | unknown shape unknown =>
    rw [shape]
    refine .inl ⟨?_, rfl⟩
    rw [placeholderIsKnown, placeholder_of_shape hs shape]
    simp [bind, Except.bind, pure, Except.pure, unknown]

theorem Stage.endsThrough_onward (h : Stage c budget i s (.onward j rest))
    (hs : c.slot? i = some s) (hle : budget ≤ c.config.recursionLimit)
    (hj : c.terminal j = .ok r) : c.EndsThrough i r s := by
  unfold EndsThrough
  cases h with
  | along parameter follow =>
    obtain ⟨name, location, hshape⟩ := Slot.isParameter_iff.mp parameter
    rw [hshape]
    exact ⟨j, parameterTarget_of_follow follow hle, hj⟩
  | associated shape known type =>
    rw [shape]
    refine .inr ⟨j, ?_, hj⟩
    rw [placeholderTarget, placeholder_of_shape hs shape]
    simpa [bind, Except.bind, known] using type
  | base shape type =>
    rw [shape]
    exact ⟨j, type, hj⟩

theorem endsThrough_of_direct (hdirect : s.kind.isIndirect = false) : c.EndsThrough i i s := by
  unfold EndsThrough
  unfold Slot.kind at hdirect
  split
  all_goals simp_all [Shape.kind, Kind.isIndirect]

theorem Arrives.endsThrough (h : Arrives c c.config.recursionLimit i r) :
    ∃ s, c.slot? i = some s ∧ c.EndsThrough i r s := by
  have hterminal := terminal_eq_ok_iff.mpr h
  generalize hlimit : c.config.recursionLimit = limit at h
  cases h with
  | direct slot direct => exact ⟨_, slot, endsThrough_of_direct direct⟩
  | settled slot indirect stage =>
    have hstage := Stage.of_stage indirect stage (by simp)
    exact ⟨_, slot, hstage.endsThrough_settled slot (by omega) hterminal⟩
  | onward slot indirect stage tail =>
    have hstage := Stage.of_stage indirect stage (by simp)
    have hrest := hstage.rest_le slot
    have hj := terminal_eq_ok_iff.mpr (tail.mono (by omega))
    exact ⟨_, slot, hstage.endsThrough_onward slot (by omega) hj⟩

/-! ## Resolving again -/

theorem resolve_of_arrives (h : Arrives c c.config.recursionLimit i r) :
    c.resolve i = (.ok r, c) := by
  rw [resolve, walkFrom, h.walk (Nat.le_refl _)]

/-- The end of a resolution stays the end in the store that the resolution leaves, be it the one
that was found or the new slot for an error. -/
theorem arrives_of_resolve {c' : Context} (hroom : c.size < 2 ^ 32)
    (h : c.resolve i = (.ok r, c')) : Arrives c' c'.config.recursionLimit r r := by
  unfold resolve at h
  cases hwalk : c.walkFrom i with
  | error f =>
    rw [hwalk] at h
    cases h
  | ok p =>
    rw [hwalk] at h
    cases p with
    | some j =>
      cases h
      exact (Arrives.of_walk hwalk).stays
    | none =>
      cases hs : c.slot i with
      | error f =>
        rw [hs] at h
        cases h
      | ok s =>
        rw [hs] at h
        cases h
        exact .direct (slot?_allocate_nextSlot hroom _) rfl

/-- A resolution that comes to an end is final: a second one stays there, also in the store that
a resolution out of budget leaves. On the way it asks the single questions, so that resolving what
a parameter, a placeholder or a projection stands for comes to the same end. -/
theorem resolution_is_final (c : Context) (i r : SlotId) :
    (c.terminal i = .ok r →
      c.terminal r = .ok r ∧ ∃ s, c.slot? i = some s ∧ c.EndsThrough i r s) ∧
    (c.size < 2 ^ 32 → ∀ c', c.resolve i = (.ok r, c') → c'.resolve r = (.ok r, c')) := by
  constructor
  · intro h
    rw [terminal_eq_ok_iff] at h
    exact ⟨terminal_eq_ok_iff.mpr h.stays, h.endsThrough⟩
  · intro hroom c' h
    exact resolve_of_arrives (arrives_of_resolve hroom h)

/-- A parameter at the head of five types of three kinds, and one of two parameters that stand for
each other, for which a resolution makes an error. -/
theorem mixedKinds_and_crossedParameters_final :
    ((mixedKinds 5).terminal ⟨19⟩ = .ok ⟨23⟩ ∧ (mixedKinds 5).terminal ⟨23⟩ = .ok ⟨23⟩ ∧
      ∃ j, (mixedKinds 5).parameterTarget ⟨19⟩ = .ok j ∧
        (mixedKinds 5).terminal j = .ok ⟨23⟩) ∧
    ∃ c', crossedParameters.resolve ⟨19⟩ = (.ok ⟨21⟩, c') ∧ c'.resolve ⟨21⟩ = (.ok ⟨21⟩, c') := by
  constructor
  · have hterminal : (mixedKinds 5).terminal ⟨19⟩ = .ok ⟨23⟩ := by rfl
    obtain ⟨hagain, s, hs, hthrough⟩ :=
      (resolution_is_final (mixedKinds 5) ⟨19⟩ ⟨23⟩).1 hterminal
    have hshape : (mixedKinds 5).slot? ⟨19⟩
        = some (.bound ⟨45⟩ ⟨46⟩ (.parameter "A" .unknown)) := by decide +kernel
    rw [hs] at hshape
    cases hshape
    exact ⟨hterminal, hagain, hthrough⟩
  · have hroom : crossedParameters.size < 2 ^ 32 := by decide +kernel
    have hanswer : (crossedParameters.resolve ⟨19⟩).1 = .ok ⟨21⟩ := by rfl
    have hresolve : crossedParameters.resolve ⟨19⟩
        = (.ok ⟨21⟩, (crossedParameters.resolve ⟨19⟩).2) := by rw [← hanswer]
    exact ⟨_, hresolve,
      (resolution_is_final crossedParameters ⟨19⟩ ⟨21⟩).2 hroom _ hresolve⟩

end Context

end TypeStore
