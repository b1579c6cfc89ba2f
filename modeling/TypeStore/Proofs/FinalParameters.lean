import Mathlib.Logic.Relation
import TypeStore.Proofs.Ends

/-!
# Parameters at which a resolution ends

A parameter is bound to the type of its binding. One that is bound to itself stands for nothing
else, and a resolution may end there.

Inside a chain of bindings a parameter is known to stand for itself by its two nodes, and the
chain then ends at whatever its node has as type. That is another slot if the node was given
another type while the parameter is still the type of some other node. Such a parameter is
overtaken. A chain may leave an overtaken parameter for a parameter that is not bound to itself,
and may even come back to where it started; this is the only way in which a resolution ends at a
parameter that is not bound to itself.
-/

namespace TypeStore

open Relation

namespace Context

variable {c : Context} {i j k r : SlotId} {s : Slot} {budget rest : Nat}

/-! ## Bindings -/

def IsParameter (c : Context) (i : SlotId) : Prop :=
  ∃ s, c.slot? i = some s ∧ s.isParameter = true

/-- The first slot holds a parameter, and the second one is the type of its binding. -/
def BindsTo (c : Context) (i j : SlotId) : Prop :=
  ∃ s, c.slot? i = some s ∧ s.isParameter = true ∧ c.typeOf? s.binding = some j

/-- A parameter that stands for itself by its nodes, though its node has another type. -/
def Overtaken (c : Context) (p : SlotId) : Prop :=
  ∃ s, c.slot? p = some s ∧ s.isSelfBound = true ∧ c.typeOf? s.node ≠ some p

instance (c : Context) (i : SlotId) : Decidable (c.IsParameter i) :=
  inferInstanceAs (Decidable (∃ s ∈ c.slot? i, s.isParameter = true))

instance (c : Context) (i j : SlotId) : Decidable (c.BindsTo i j) :=
  inferInstanceAs (Decidable (∃ s ∈ c.slot? i, s.isParameter = true ∧
    c.typeOf? s.binding = some j))

instance (c : Context) (p : SlotId) : Decidable (c.Overtaken p) :=
  inferInstanceAs (Decidable (∃ s ∈ c.slot? p, s.isSelfBound = true ∧ c.typeOf? s.node ≠ some p))

/-- A parameter is bound to one slot at most. -/
theorem bindsTo_rightUnique (c : Context) : Relator.RightUnique c.BindsTo := by
  rintro i j k ⟨s, hs, -, hj⟩ ⟨t, ht, -, hk⟩
  rw [hs] at ht
  cases ht
  rw [hj] at hk
  exact Option.some.inj hk

theorem not_isParameter_of_direct (hs : c.slot? i = some s) (hdirect : s.kind.isIndirect = false) :
    ¬ c.IsParameter i := by
  rintro ⟨t, ht, hparameter⟩
  rw [hs] at ht
  cases ht
  rw [Slot.isIndirect_iff.mpr (.inl hparameter)] at hdirect
  cases hdirect

/-- In a well-formed store a type was made for the node that has it, so no type is overtaken. -/
theorem WellFormed.not_overtaken (h : c.WellFormed) {n : NodeId} (hn : c.typeOf? n = some i) :
    ¬ c.Overtaken i := by
  rintro ⟨s, hs, -, hother⟩
  obtain ⟨t, ht, rfl⟩ := h.made hn
  rw [hs] at ht
  cases ht
  exact hother hn

/-- A parameter that stands for itself by its nodes and is bound to another slot is overtaken. -/
theorem overtaken_of_bindsTo_ne (hs : c.slot? i = some s) (hself : s.isSelfBound = true)
    (hbinds : c.BindsTo i j) (hne : j ≠ i) : c.Overtaken i := by
  obtain ⟨t, ht, -, hj⟩ := hbinds
  rw [hs] at ht
  cases ht
  have hnode : s.node = s.binding := by
    simp only [Slot.isSelfBound, Bool.and_eq_true, beq_iff_eq] at hself
    exact hself.2
  refine ⟨s, hs, hself, ?_⟩
  rw [hnode, hj]
  simpa using hne

/-- So any other parameter that is bound to another slot stands for another node. -/
theorem exists_isRebound_of_bindsTo_ne (hkept : ¬ c.Overtaken i) (hbinds : c.BindsTo i j)
    (hne : j ≠ i) :
    ∃ s, c.slot? i = some s ∧ s.isRebound = true ∧ c.typeOf? s.binding = some j := by
  obtain ⟨s, hs, hparameter, hj⟩ := hbinds
  refine ⟨s, hs, ?_, hj⟩
  by_contra hrebound
  have hself : s.isSelfBound = true := by
    simp_all [Slot.isRebound, Slot.isSelfBound]
  exact hkept (overtaken_of_bindsTo_ne hs hself ⟨s, hs, hparameter, hj⟩ hne)

/-! ## Where a chain ends -/

/-- The end of a chain of bindings: it is no parameter, or bound to itself, or what a parameter
of the chain is bound to that stands for itself by its nodes. -/
def ChainEnd (c : Context) (i r : SlotId) : Prop :=
  ¬ c.IsParameter r ∨ c.BindsTo r r ∨
    ∃ p s, ReflTransGen c.BindsTo i p ∧ c.slot? p = some s ∧ s.isSelfBound = true ∧ c.BindsTo p r

theorem ChainEnd.head (hij : c.BindsTo i j) (h : c.ChainEnd j r) : c.ChainEnd i r := by
  rcases h with hnot | hown | ⟨p, s, hreach, hp⟩
  · exact .inl hnot
  · exact .inr (.inl hown)
  · exact .inr (.inr ⟨p, s, .head hij hreach, hp⟩)

/-- A chain goes no further than a slot that does not stand for another node. -/
theorem chainEnd_of_not_isRebound (hs : c.slot? i = some s) (hrebound : s.isRebound = false)
    (h : c.followBindings budget i = .ok (some (r, rest))) : c.ChainEnd i r := by
  cases hself : s.isSelfBound with
  | true =>
    rw [followBindings_of_selfBound hs hself] at h
    obtain ⟨j, hj, h⟩ := exists_of_bind_eq_ok h
    cases h
    refine .inr (.inr ⟨i, s, .refl, hs, hself, s, hs, ?_, typeOf_eq_ok_iff.mp hj⟩)
    simp only [Slot.isSelfBound, Bool.and_eq_true] at hself
    exact hself.1
  | false =>
    rw [followBindings_of_direct hs hrebound hself] at h
    cases h
    refine .inl ?_
    rintro ⟨t, ht, hparameter⟩
    rw [hs] at ht
    cases ht
    simp_all [Slot.isRebound, Slot.isSelfBound]

theorem exists_slot?_of_followBindings {answer : Option (SlotId × Nat)}
    (h : c.followBindings budget i = .ok answer) : ∃ s, c.slot? i = some s := by
  unfold followBindings at h
  obtain ⟨s, hs, -⟩ := exists_of_bind_eq_ok h
  exact ⟨s, slot_eq_ok_iff.mp hs⟩

theorem chainEnd_of_followBindings (h : c.followBindings budget i = .ok (some (r, rest))) :
    c.ChainEnd i r := by
  induction budget generalizing i with
  | zero =>
    obtain ⟨s, hs⟩ := exists_slot?_of_followBindings h
    cases hrebound : s.isRebound with
    | true =>
      rw [followBindings_zero_of_rebound hs hrebound] at h
      cases h
    | false => exact chainEnd_of_not_isRebound hs hrebound h
  | succ budget ih =>
    obtain ⟨s, hs⟩ := exists_slot?_of_followBindings h
    cases hrebound : s.isRebound with
    | true =>
      rw [followBindings_succ_of_rebound hs hrebound] at h
      obtain ⟨next, hnext, h⟩ := exists_of_bind_eq_ok h
      have hbinds : c.BindsTo i next :=
        ⟨s, hs, Slot.isParameter_of_isRebound hrebound, typeOf_eq_ok_iff.mp hnext⟩
      split at h
      · rename_i heq
        cases h
        exact .inr (.inl (heq ▸ hbinds))
      · exact (ih h).head hbinds
    | false => exact chainEnd_of_not_isRebound hs hrebound h

/-- Where following a parameter ends: at no parameter, at one that is bound to itself, or behind
an overtaken one that the parameter leads to. -/
theorem end_of_followParameter (h : c.followParameter budget i = .ok (some (r, rest)))
    (hr : c.IsParameter r) :
    c.BindsTo r r ∨ ∃ p, TransGen c.BindsTo i p ∧ c.Overtaken p ∧ c.BindsTo p r := by
  have hslot := h
  unfold followParameter at hslot
  obtain ⟨s, hs, hrest⟩ := exists_of_bind_eq_ok hslot
  rw [slot_eq_ok_iff] at hs
  split at hrest
  · rename_i hparameter
    obtain ⟨first, hfirst, hrun⟩ := exists_of_bind_eq_ok hrest
    have hbinds : c.BindsTo i first := ⟨s, hs, hparameter, typeOf_eq_ok_iff.mp hfirst⟩
    rcases chainEnd_of_followBindings hrun with hnot | hown | ⟨p, t, hreach, ht, hself, hpr⟩
    · exact absurd hr hnot
    · exact .inl hown
    · by_cases heq : p = r
      · exact .inl (heq ▸ hpr)
      · refine .inr ⟨p, .head' hbinds hreach, ?_, hpr⟩
        exact overtaken_of_bindsTo_ne ht hself hpr (Ne.symm heq)
  · cases hrest

/-! ## Where a resolution ends -/

theorem end_of_parameterTarget (h : c.parameterTarget i = .ok r) (hr : c.IsParameter r) :
    c.BindsTo r r ∨ ∃ p, TransGen c.BindsTo i p ∧ c.Overtaken p ∧ c.BindsTo p r := by
  obtain ⟨answer, hfollow, h⟩ := exists_of_bind_eq_ok h
  cases answer with
  | none => cases h
  | some answer =>
    cases h
    exact end_of_followParameter hfollow hr

/-- A walk that ends at a parameter followed it and came back. -/
theorem Arrives.end_of_isParameter (h : Arrives c budget i r) (hr : c.IsParameter r) :
    c.BindsTo r r ∨ ∃ p, TransGen c.BindsTo r p ∧ c.Overtaken p ∧ c.BindsTo p r := by
  induction h with
  | direct slot direct => exact absurd hr (not_isParameter_of_direct slot direct)
  | settled slot indirect stage =>
    cases Stage.of_stage indirect stage (by simp) with
    | back parameter follow => exact end_of_followParameter follow hr
    | unknown shape unknown =>
      obtain ⟨t, ht, hparameter⟩ := hr
      rw [slot] at ht
      cases ht
      rw [Slot.isParameter, shape] at hparameter
      cases hparameter
  | onward slot indirect stage tail ih => exact ih hr

theorem resolve_eq_of_isParameter {c' : Context} (hroom : c.size < 2 ^ 32)
    (h : c.resolve i = (.ok r, c')) (hr : c'.IsParameter r) :
    c' = c ∧ Arrives c c.config.recursionLimit i r := by
  unfold resolve at h
  cases hwalk : c.walkFrom i with
  | error f =>
    rw [hwalk] at h
    cases h
  | ok answer =>
    rw [hwalk] at h
    cases answer with
    | some j =>
      cases h
      exact ⟨rfl, .of_walk hwalk⟩
    | none =>
      cases hs : c.slot i with
      | error f =>
        rw [hs] at h
        cases h
      | ok s =>
        -- the new slot holds the error type
        rw [hs] at h
        cases h
        exact absurd hr (not_isParameter_of_direct (slot?_allocate_nextSlot hroom _) rfl)

/-! ## Cycles -/

theorem eq_of_bindsTo_self (hown : c.BindsTo j j) (hjk : ReflTransGen c.BindsTo j k) : k = j := by
  induction hjk with
  | refl => rfl
  | tail _ hstep ih =>
    subst ih
    exact c.bindsTo_rightUnique hstep hown

/-- A slot that leads into a cycle of bindings, of more than one parameter and with no overtaken
one on the way. -/
structure Circular (c : Context) (i : SlotId) : Prop where
  cycle : ∃ k, ReflTransGen c.BindsTo i k ∧ TransGen c.BindsTo k k ∧ ¬ c.BindsTo k k
  kept : ∀ k, ReflTransGen c.BindsTo i k → ¬ c.Overtaken k

/-- It stands for the type of another node, which is again such a slot. -/
theorem Circular.next (h : c.Circular i) :
    ∃ s j, c.slot? i = some s ∧ s.isRebound = true ∧ c.typeOf? s.binding = some j ∧ j ≠ i ∧
      c.Circular j := by
  obtain ⟨k, hik, hcycle, hlong⟩ := h.cycle
  obtain ⟨j, hbinds, hjk⟩ := TransGen.head'_iff.mp (TransGen.trans_right hik hcycle)
  have hne : j ≠ i := by
    rintro rfl
    obtain rfl := eq_of_bindsTo_self hbinds hik
    exact hlong hbinds
  obtain ⟨s, hs, hrebound, hj⟩ := exists_isRebound_of_bindsTo_ne (h.kept i .refl) hbinds hne
  exact ⟨s, j, hs, hrebound, hj, hne, ⟨k, hjk, hcycle, hlong⟩,
    fun l hl => h.kept l (.head hbinds hl)⟩

/-- Following the bindings of a cycle spends any budget. -/
theorem Circular.followBindings (h : c.Circular i) (budget : Nat) :
    c.followBindings budget i = .ok none := by
  induction budget generalizing i with
  | zero =>
    obtain ⟨s, j, hs, hrebound, -⟩ := h.next
    exact followBindings_zero_of_rebound hs hrebound
  | succ budget ih =>
    obtain ⟨s, j, hs, hrebound, hj, hne, hnext⟩ := h.next
    rw [followBindings_succ_of_ne hs hrebound (by simp [hj, hne]), typeOf_eq_ok_iff.mpr hj]
    exact ih hnext

theorem Circular.followParameter (h : c.Circular i) (budget : Nat) :
    c.followParameter budget i = .ok none := by
  obtain ⟨s, j, hs, hrebound, hj, -, hnext⟩ := h.next
  rw [followParameter_of_isParameter hs (Slot.isParameter_of_isRebound hrebound),
    typeOf_eq_ok_iff.mpr hj]
  exact hnext.followBindings budget

theorem Circular.walk (h : c.Circular i) (rounds budget : Nat) :
    c.walk rounds budget i = .ok none := by
  obtain ⟨s, j, hs, hrebound, -⟩ := h.next
  have hparameter := Slot.isParameter_of_isRebound hrebound
  have hindirect : s.kind.isIndirect = true := Slot.isIndirect_iff.mpr (.inl hparameter)
  cases budget with
  | zero => exact walk_zero_of_indirect hs hindirect rounds
  | succ budget =>
    cases rounds with
    | zero =>
      rw [Context.walk, slot_eq_ok_iff.mpr hs]
      simp [bind, Except.bind, pure, Except.pure, hindirect]
    | succ rounds =>
      rw [walk_succ_of_indirect hs hindirect, stage_of_isParameter hparameter,
        h.followParameter budget]
      rfl

/-! ## Final parameters -/

/-- Where the single question for a parameter, or a resolution, ends at a parameter, that one is
bound to itself, or it is what an overtaken parameter is bound to. The single question may come by
an overtaken parameter anywhere on its way; a resolution goes on from there, so that it ends at
such a parameter only if this leads back to the overtaken one. Where no type is an overtaken
parameter, the end is bound to itself. A cycle of more than one parameter is the end of nothing,
unless an overtaken one is on it. -/
theorem final_parameter_is_bound_to_itself (c : Context) (i r : SlotId) :
    (c.parameterTarget i = .ok r → c.IsParameter r →
      c.BindsTo r r ∨ ∃ p, TransGen c.BindsTo i p ∧ c.Overtaken p ∧ c.BindsTo p r) ∧
    (c.terminal i = .ok r → c.IsParameter r →
      c.BindsTo r r ∨ ∃ p, TransGen c.BindsTo r p ∧ c.Overtaken p ∧ c.BindsTo p r) ∧
    (c.size < 2 ^ 32 → ∀ c', c.resolve i = (.ok r, c') → c'.IsParameter r →
      c' = c ∧ c.terminal i = .ok r) ∧
    ((∀ n p, c.typeOf? n = some p → ¬ c.Overtaken p) → c.IsParameter r →
      c.parameterTarget i = .ok r ∨ c.terminal i = .ok r → c.BindsTo r r) ∧
    (c.Circular i →
      c.parameterTarget i = .error (c.limitFault i) ∧ c.terminal i = .error (c.limitFault i)) := by
  have htyped : ∀ {a p}, TransGen c.BindsTo a p → ∃ n, c.typeOf? n = some p := by
    intro a p h
    obtain ⟨b, -, s, -, -, hp⟩ := TransGen.tail'_iff.mp h
    exact ⟨s.binding, hp⟩
  have hterminal : c.terminal i = .ok r → c.IsParameter r →
      c.BindsTo r r ∨ ∃ p, TransGen c.BindsTo r p ∧ c.Overtaken p ∧ c.BindsTo p r := fun h =>
    (terminal_eq_ok_iff.mp h).end_of_isParameter
  refine ⟨end_of_parameterTarget, hterminal, ?_, ?_, ?_⟩
  · intro hroom c' h hr
    obtain ⟨heq, harrives⟩ := resolve_eq_of_isParameter hroom h hr
    exact ⟨heq, terminal_eq_ok_iff.mpr harrives⟩
  · rintro hkept hr (h | h)
    · rcases end_of_parameterTarget h hr with hown | ⟨p, hp, hovertaken, -⟩
      · exact hown
      · obtain ⟨n, hn⟩ := htyped hp
        exact absurd hovertaken (hkept n p hn)
    · rcases hterminal h hr with hown | ⟨p, hp, hovertaken, -⟩
      · exact hown
      · obtain ⟨n, hn⟩ := htyped hp
        exact absurd hovertaken (hkept n p hn)
  · intro hcircular
    constructor
    · rw [parameterTarget, hcircular.followParameter]
      rfl
    · rw [terminal, walkFrom, hcircular.walk]
      rfl

/-- Makes a parameter that stands for itself and gives it to a second node; makes another parameter
that stands for the second node; and gives that one to the first node. -/
def overtakeParameter : List Command :=
  [.mint, .register (.bound ⟨45⟩ ⟨45⟩ (.parameter "T" .unknown)),
    .mint, .bindType ⟨46⟩ ⟨19⟩,
    .mint, .register (.bound ⟨47⟩ ⟨46⟩ (.parameter "U" .unknown)),
    .bindType ⟨45⟩ ⟨20⟩]

/-- A store with an overtaken parameter, bound to one that is bound to it. -/
def overtakenParameter : Context := (new .standard).run overtakeParameter

/-- The second parameter is the end of its own resolution because the first one is overtaken. Two
parameters that stand for each other spend the budget. -/
theorem overtakenParameter_and_crossedParameters_end :
    (overtakenParameter.terminal ⟨20⟩ = .ok ⟨20⟩ ∧
      ∃ p, TransGen overtakenParameter.BindsTo ⟨20⟩ p ∧ overtakenParameter.Overtaken p ∧
        overtakenParameter.BindsTo p ⟨20⟩) ∧
    crossedParameters.Circular ⟨19⟩ ∧
      crossedParameters.terminal ⟨19⟩ = .error (.error (.limitExceeded ⟨45⟩ 3)) := by
  constructor
  · have hend : overtakenParameter.terminal ⟨20⟩ = .ok ⟨20⟩ := by rfl
    have hother : ¬ overtakenParameter.BindsTo ⟨20⟩ ⟨20⟩ := by decide +kernel
    obtain ⟨-, hterminal, -⟩ := final_parameter_is_bound_to_itself overtakenParameter ⟨20⟩ ⟨20⟩
    exact ⟨hend, (hterminal hend (by decide +kernel)).resolve_left hother⟩
  · have hfirst : crossedParameters.BindsTo ⟨19⟩ ⟨20⟩ := by decide +kernel
    have hsecond : crossedParameters.BindsTo ⟨20⟩ ⟨19⟩ := by decide +kernel
    have htype : crossedParameters.typeOf? ⟨45⟩ = some ⟨19⟩ := by decide +kernel
    have hcircular : crossedParameters.Circular ⟨19⟩ := by
      refine ⟨⟨⟨19⟩, .refl, .tail (.single hfirst) hsecond, by decide +kernel⟩, ?_⟩
      intro k hk
      obtain ⟨n, hn⟩ : ∃ n, crossedParameters.typeOf? n = some k := by
        cases hk with
        | refl => exact ⟨⟨45⟩, htype⟩
        | tail _ hstep =>
          obtain ⟨s, -, -, hk⟩ := hstep
          exact ⟨s.binding, hk⟩
      exact reached_crossedParameters.wellFormed.not_overtaken hn
    obtain ⟨-, -, -, -, hspent⟩ := final_parameter_is_bound_to_itself crossedParameters ⟨19⟩ ⟨19⟩
    exact ⟨hcircular, (hspent hcircular).2⟩

/-- The two parameters of this store are bound to each other and neither is bound to itself, but
the second one is its own target and the end of its own resolution. -/
theorem overtakenParameter_ends_in_cycle :
    overtakenParameter.BindsTo ⟨20⟩ ⟨19⟩ ∧ overtakenParameter.BindsTo ⟨19⟩ ⟨20⟩ ∧
      ¬ (∀ r, overtakenParameter.parameterTarget ⟨20⟩ = .ok r →
        overtakenParameter.IsParameter r → overtakenParameter.BindsTo r r) ∧
      ¬ (∀ r, overtakenParameter.terminal ⟨20⟩ = .ok r →
        overtakenParameter.IsParameter r → overtakenParameter.BindsTo r r) ∧
      ¬ (∀ r c', overtakenParameter.resolve ⟨20⟩ = (.ok r, c') →
        c'.IsParameter r → c'.BindsTo r r) := by
  have hother : ¬ overtakenParameter.BindsTo ⟨20⟩ ⟨20⟩ := by decide +kernel
  have hparameter : overtakenParameter.IsParameter ⟨20⟩ := by decide +kernel
  refine ⟨by decide +kernel, by decide +kernel, ?_, ?_, ?_⟩
  · intro h
    exact hother (h ⟨20⟩ (by rfl) hparameter)
  · intro h
    exact hother (h ⟨20⟩ (by rfl) hparameter)
  · intro h
    exact hother (h ⟨20⟩ overtakenParameter (by rfl) hparameter)

end Context

end TypeStore
