import TypeStore.Proofs.Resolution

/-!
# Resolution, hop by hop

One hop leads from a parameter to the type of its binding, from a placeholder to its associated
type, and from a projection to its base. The plain way to resolve a slot is to make one hop after
the other and to pay one step for every parameter, placeholder and projection on the way; `hops`
does that.

Resolution follows a chain of bindings in one go, on a budget that it shares with the chain, and
the first hop of a chain is free. Inside a chain it tells by the nodes of a slot whether a
parameter stands for itself, outside by the slot that the chain comes to. Wherever the two ways
of telling agree, it comes to the end that the hops come to, at the same price.
-/

namespace TypeStore

namespace Context

variable {c : Context} {i j : SlotId} {s : Slot} {n : NodeId}

/-! ## Hops -/

/-- The node whose type comes next, `none` at a slot that stands for itself: a type of another
kind, a placeholder whose associated type is not known, a parameter that is the type of its own
binding. -/
def hop? (c : Context) (i : SlotId) (s : Slot) : Option NodeId :=
  match s.shape with
  | .parameter .. => if c.typeOf? s.binding = some i then none else some s.binding
  | .placeholder _ => c.associatedNode? s
  | .projection base _ _ _ => some base.node
  | _ => none

/-- Makes one hop after the other; every parameter, placeholder or projection that is visited
costs a step, also the one at the end. `none` if the budget is spent. -/
def hops (c : Context) : Nat → SlotId → Except Fault (Option SlotId)
  | budget, i => do
    let s ← c.slot i
    if s.kind.isIndirect then
      match budget with
      | 0 => return none
      | budget + 1 =>
        match c.hop? i s with
        | some n => hops c budget (← c.typeOf n)
        | none => return some i
    else return some i

section Steps

variable (hs : c.slot? i = some s)

include hs

theorem hops_of_direct (hdirect : s.kind.isIndirect = false) (budget : Nat) :
    c.hops budget i = .ok (some i) := by
  rw [hops, slot_eq_ok_iff.mpr hs]
  simp [bind, Except.bind, pure, Except.pure, hdirect]

theorem hops_zero_of_indirect (hindirect : s.kind.isIndirect = true) :
    c.hops 0 i = .ok none := by
  rw [hops, slot_eq_ok_iff.mpr hs]
  simp [bind, Except.bind, pure, Except.pure, hindirect]

theorem hops_succ_of_indirect (hindirect : s.kind.isIndirect = true) (budget : Nat) :
    c.hops (budget + 1) i =
      match c.hop? i s with
      | some n => c.typeOf n >>= c.hops budget
      | none => .ok (some i) := by
  rw [hops, slot_eq_ok_iff.mpr hs]
  simp only [bind, Except.bind, hindirect, if_true]
  cases c.hop? i s with
  | none => rfl
  | some n => rfl

end Steps

/-! ## Parameters that stand for themselves -/

/-- Of the parameters that are types, exactly those whose binding is their own node are the type of
their binding. -/
def BindingsAgree (c : Context) : Prop :=
  ∀ n i s, c.typeOf? n = some i → c.slot? i = some s → s.isParameter = true →
    (s.node = s.binding ↔ c.typeOf? s.binding = some i)

theorem WellFormed.bindingsAgree (h : c.WellFormed) : c.BindingsAgree := by
  intro n i s hn hs _
  obtain ⟨t, ht, rfl⟩ := h.made hn
  rw [hs] at ht
  cases ht
  constructor
  · intro heq
    rw [← heq]
    exact hn
  · intro hbinding
    exact h.typeOf?_inj hn hbinding

theorem BindingsAgree.of_isRebound (h : c.BindingsAgree) (hn : c.typeOf? n = some i)
    (hs : c.slot? i = some s) (hrebound : s.isRebound = true) : c.typeOf? s.binding ≠ some i := by
  simp only [Slot.isRebound, Bool.and_eq_true, bne_iff_ne] at hrebound
  intro hbinding
  exact hrebound.2 ((h n i s hn hs hrebound.1).mpr hbinding)

theorem BindingsAgree.of_isSelfBound (h : c.BindingsAgree) (hn : c.typeOf? n = some i)
    (hs : c.slot? i = some s) (hself : s.isSelfBound = true) : c.typeOf? s.binding = some i := by
  simp only [Slot.isSelfBound, Bool.and_eq_true, beq_iff_eq] at hself
  exact (h n i s hn hs hself.1).mp hself.2

/-- A type that does not stand for another node is the end of a chain of bindings. -/
theorem BindingsAgree.followBindings_of_not_isRebound (h : c.BindingsAgree)
    (hn : c.typeOf? n = some i) (hs : c.slot? i = some s) (hrebound : s.isRebound = false)
    (budget : Nat) : c.followBindings budget i = .ok (some (i, budget)) := by
  cases hself : s.isSelfBound with
  | false => exact followBindings_of_direct hs hrebound hself budget
  | true =>
    have htype := typeOf_eq_ok_iff.mpr (h.of_isSelfBound hn hs hself)
    rw [followBindings_of_selfBound hs hself, htype]
    rfl

/-! ## Chains of bindings -/

/-- What is left at the end of a chain is part of the budget. -/
theorem yields_rest_followBindings (c : Context) (budget : Nat) (i : SlotId) :
    Yields (fun _ => True) (fun r => ∀ p ∈ r, p.2 ≤ budget) (c.followBindings budget i) := by
  have hend : ∀ (budget : Nat) (j : SlotId), ∀ p ∈ some (j, budget), p.2 ≤ budget := by
    simp
  induction budget generalizing i with
  | zero =>
    unfold followBindings
    refine (Yields.trivial _).bind fun s _ => ?_
    split
    · exact fun _ hj => absurd hj (Option.not_mem_none _)
    · split
      · exact (Yields.trivial _).bind fun j _ => hend 0 j
      · exact hend 0 i
  | succ budget ih =>
    unfold followBindings
    refine (Yields.trivial _).bind fun s _ => ?_
    split
    · refine (Yields.trivial _).bind fun next _ => ?_
      split
      · simp [Yields, pure, Except.pure]
      · refine (ih next).imp (fun _ h => h) fun r hr p hp => ?_
        exact Nat.le_succ_of_le (hr p hp)
    · split
      · exact (Yields.trivial _).bind fun j _ => hend _ j
      · exact hend _ i

theorem followBindings_rest_le {budget rest : Nat}
    (h : c.followBindings budget i = .ok (some (j, rest))) : rest ≤ budget := by
  have hyields := yields_rest_followBindings c budget i
  rw [h] at hyields
  exact hyields (j, rest) rfl

/-- How following a chain of bindings goes: from the budget and the slot it starts at to its
answer. -/
inductive Chain (c : Context) : Nat → SlotId → Except Fault (Option (SlotId × Nat)) → Prop
  /-- The chain ends at a type that does not stand for another node. -/
  | done {budget : Nat} {i : SlotId} {n : NodeId} {s : Slot} (type : c.typeOf? n = some i)
      (slot : c.slot? i = some s) (own : s.isRebound = false) :
      Chain c budget i (.ok (some (i, budget)))
  | spent {i : SlotId} {s : Slot} (slot : c.slot? i = some s) (rebound : s.isRebound = true) :
      Chain c 0 i (.ok none)
  | untyped {budget : Nat} {i : SlotId} {s : Slot} (slot : c.slot? i = some s)
      (rebound : s.isRebound = true) (untyped : c.typeOf? s.binding = none) :
      Chain c (budget + 1) i (.error (.error (.unknownType s.binding)))
  | hop {budget : Nat} {i next : SlotId} {s : Slot} {r : Except Fault (Option (SlotId × Nat))}
      (slot : c.slot? i = some s) (rebound : s.isRebound = true)
      (type : c.typeOf? s.binding = some next) (ne : next ≠ i) (tail : Chain c budget next r) :
      Chain c (budget + 1) i r

theorem chain_followBindings (htypes : c.TypesExist) (hagree : c.BindingsAgree) (budget : Nat)
    (hn : c.typeOf? n = some i) : Chain c budget i (c.followBindings budget i) := by
  induction budget generalizing n i with
  | zero =>
    obtain ⟨s, hs⟩ := exists_slot?_of_index_lt (htypes n i hn)
    cases hrebound : s.isRebound with
    | true =>
      rw [followBindings_zero_of_rebound hs hrebound]
      exact .spent hs hrebound
    | false =>
      rw [hagree.followBindings_of_not_isRebound hn hs hrebound]
      exact .done hn hs hrebound
  | succ budget ih =>
    obtain ⟨s, hs⟩ := exists_slot?_of_index_lt (htypes n i hn)
    cases hrebound : s.isRebound with
    | true =>
      have hother := hagree.of_isRebound hn hs hrebound
      rw [followBindings_succ_of_ne hs hrebound hother]
      cases htype : c.typeOf? s.binding with
      | none =>
        rw [typeOf_of_none htype]
        exact .untyped hs hrebound htype
      | some next =>
        have hne : next ≠ i := by
          rintro rfl
          exact hother htype
        rw [typeOf_eq_ok_iff.mpr htype]
        exact .hop hs hrebound htype hne (ih htype)
    | false =>
      rw [hagree.followBindings_of_not_isRebound hn hs hrebound]
      exact .done hn hs hrebound

/-- Where a chain ends. -/
theorem Chain.end {budget rest : Nat} (h : Chain c budget i (.ok (some (j, rest)))) :
    ∃ m t, c.typeOf? m = some j ∧ c.slot? j = some t ∧ t.isRebound = false := by
  generalize hr : Except.ok (some (j, rest)) = r at h
  induction h with
  | done type slot own =>
    cases hr
    exact ⟨_, _, type, slot, own⟩
  | spent slot rebound => cases hr
  | untyped slot rebound untyped => cases hr
  | hop slot rebound type ne tail ih => exact ih hr

theorem hop?_of_isParameter (hparameter : s.isParameter = true)
    (hne : c.typeOf? s.binding ≠ some i) : c.hop? i s = some s.binding := by
  obtain ⟨name, location, hshape⟩ := Slot.isParameter_iff.mp hparameter
  simp [hop?, hshape, hne]

theorem hop?_of_own (hparameter : s.isParameter = true) (hown : c.typeOf? s.binding = some i) :
    c.hop? i s = none := by
  obtain ⟨name, location, hshape⟩ := Slot.isParameter_iff.mp hparameter
  simp [hop?, hshape, hown]

/-- Hops go along a chain and on from its end with what the chain has left. -/
theorem Chain.hops {budget : Nat} {r : Except Fault (Option (SlotId × Nat))}
    (h : Chain c budget i r) :
    c.hops budget i = r >>= fun r =>
      match r with
      | some (j, rest) => c.hops rest j
      | none => .ok none := by
  induction h with
  | done type slot own => rfl
  | spent slot rebound =>
    have hparameter := Slot.isParameter_of_isRebound rebound
    rw [hops_zero_of_indirect slot (Slot.isIndirect_iff.mpr (.inl hparameter))]
    rfl
  | untyped slot rebound untyped =>
    have hparameter := Slot.isParameter_of_isRebound rebound
    rw [hops_succ_of_indirect slot (Slot.isIndirect_iff.mpr (.inl hparameter)),
      hop?_of_isParameter hparameter (by simp [untyped])]
    simp only [typeOf_of_none untyped]
    rfl
  | hop slot rebound type ne tail ih =>
    have hparameter := Slot.isParameter_of_isRebound rebound
    rw [hops_succ_of_indirect slot (Slot.isIndirect_iff.mpr (.inl hparameter)),
      hop?_of_isParameter hparameter (by simp [type, ne])]
    simp only [typeOf_eq_ok_iff.mpr type]
    exact ih

/-! ## Walks -/

theorem walk_zero_eq_hops (hi : c.Has i) (rounds : Nat) : c.walk rounds 0 i = c.hops 0 i := by
  obtain ⟨s, hs⟩ := exists_slot?_of_index_lt hi
  cases hindirect : s.kind.isIndirect with
  | false => rw [walk_of_direct hs hindirect, hops_of_direct hs hindirect]
  | true => rw [walk_zero_of_indirect hs hindirect, hops_zero_of_indirect hs hindirect]

section Walks

variable (htypes : c.TypesExist) (hagree : c.BindingsAgree)

include hagree

/-- A chain that starts at another slot does not come back to the parameter it was followed
from: that one would be its own type, and the chain would have started there. -/
theorem Chain.end_ne {budget rest : Nat} {first : SlotId}
    (h : Chain c budget first (.ok (some (j, rest)))) (hs : c.slot? i = some s)
    (hparameter : s.isParameter = true) (hfirst : c.typeOf? s.binding = some first)
    (hne : first ≠ i) : j ≠ i := by
  rintro rfl
  obtain ⟨m, t, hm, ht, hrebound⟩ := h.end
  rw [hs] at ht
  cases ht
  have hself : s.isSelfBound = true := by
    simp_all [Slot.isSelfBound, Slot.isRebound]
  rw [hagree.of_isSelfBound hm hs hself] at hfirst
  cases hfirst
  exact hne rfl

include htypes

theorem walk_eq_hops_of_isParameter {rounds budget : Nat} (hs : c.slot? i = some s)
    (hparameter : s.isParameter = true)
    (ih : ∀ {rest j}, rest ≤ budget → c.Has j → c.walk rounds rest j = c.hops rest j) :
    c.walk (rounds + 1) (budget + 1) i = c.hops (budget + 1) i := by
  have hindirect : s.kind.isIndirect = true := Slot.isIndirect_iff.mpr (.inl hparameter)
  rw [walk_succ_of_indirect hs hindirect, hops_succ_of_indirect hs hindirect,
    stage_of_isParameter hparameter, followParameter_of_isParameter hs hparameter]
  cases htype : c.typeOf? s.binding with
  | none =>
    rw [hop?_of_isParameter hparameter (by simp [htype])]
    simp only [typeOf_of_none htype]
    rfl
  | some first =>
    by_cases hown : first = i
    · -- the parameter is its own type, so the chain ends where it starts
      subst hown
      have hrebound : s.isRebound = false := by
        rw [Bool.eq_false_iff]
        intro hrebound
        exact hagree.of_isRebound htype hs hrebound htype
      rw [hop?_of_own hparameter htype, typeOf_eq_ok_iff.mpr htype]
      simp [bind, Except.bind, hagree.followBindings_of_not_isRebound htype hs hrebound]
    · have hchain := chain_followBindings htypes hagree budget htype
      rw [hop?_of_isParameter hparameter (by simp [htype, hown])]
      simp only [typeOf_eq_ok_iff.mpr htype, bind, Except.bind]
      rw [hchain.hops]
      cases hrun : c.followBindings budget first with
      | error f => rfl
      | ok r =>
        rw [hrun] at hchain
        cases r with
        | none => rfl
        | some r =>
          obtain ⟨j, rest⟩ := r
          obtain ⟨m, -, hm, -⟩ := hchain.end
          have hne := hchain.end_ne hagree hs hparameter htype hown
          simp only [bind, Except.bind, if_neg hne]
          exact ih (followBindings_rest_le hrun) (htypes m j hm)

/-- A walk makes the hops that its budget pays for. -/
theorem walk_eq_hops {rounds budget : Nat} (hle : budget ≤ rounds) (hi : c.Has i) :
    c.walk rounds budget i = c.hops budget i := by
  induction rounds generalizing budget i with
  | zero =>
    obtain rfl : budget = 0 := by omega
    exact walk_zero_eq_hops hi 0
  | succ rounds ih =>
    obtain ⟨s, hs⟩ := exists_slot?_of_index_lt hi
    cases budget with
    | zero => exact walk_zero_eq_hops hi (rounds + 1)
    | succ budget =>
      have hbudget : budget ≤ rounds := by omega
      have honward : ∀ {n j}, c.typeOf n = .ok j → c.walk rounds budget j = c.hops budget j := by
        intro n j htype
        exact ih hbudget (htypes n j (typeOf_eq_ok_iff.mp htype))
      cases hindirect : s.kind.isIndirect with
      | false => rw [walk_of_direct hs hindirect, hops_of_direct hs hindirect]
      | true =>
        rcases Slot.isIndirect_iff.mp hindirect with
          hparameter | ⟨name, hshape⟩ | ⟨base, traitNode, item, generics, hshape⟩
        · exact walk_eq_hops_of_isParameter htypes hagree hs hparameter
            fun hrest hj => ih (Nat.le_trans hrest hbudget) hj
        · rw [walk_succ_of_indirect hs hindirect, hops_succ_of_indirect hs hindirect,
            stage_of_placeholder hshape]
          simp only [hop?, hshape]
          cases c.associatedNode? s with
          | none => rfl
          | some n =>
            dsimp only
            cases htype : c.typeOf n with
            | error f => rfl
            | ok j => exact honward htype
        · rw [walk_succ_of_indirect hs hindirect, hops_succ_of_indirect hs hindirect,
            stage_of_projection hshape]
          simp only [hop?, hshape]
          cases htype : c.typeOf base.node with
          | error f => rfl
          | ok j => exact honward htype

end Walks

/-- Resolution comes to the slot that the hops come to, fails at the node without a type at which
they fail, and exceeds its limit where the hops spend the limit as their budget. -/
theorem terminal_goes_by_hops (htypes : c.TypesExist) (hagree : c.BindingsAgree)
    (hs : c.slot? i = some s) :
    (c.terminal i =
      match c.hops c.config.recursionLimit i with
      | .ok (some j) => .ok j
      | .ok none => .error (.error (.limitExceeded s.node c.config.recursionLimit))
      | .error f => .error f) ∧
      ∀ f, c.hops c.config.recursionLimit i = .error f → c.Untyped f := by
  have hi : c.Has i := index_lt_of_slot? hs
  have hwalk : c.walkFrom i = c.hops c.config.recursionLimit i :=
    walk_eq_hops htypes hagree (Nat.le_refl _) hi
  constructor
  · have hlimit : c.limitFault i = .error (.limitExceeded s.node c.config.recursionLimit) := by
      rw [limitFault, slot_eq_ok_iff.mpr hs]
    rw [terminal, hwalk]
    cases c.hops c.config.recursionLimit i with
    | error f => rfl
    | ok r =>
      cases r with
      | some j => rfl
      | none => exact congrArg Except.error hlimit
  · intro f hf
    have hyields := yields_walk htypes c.config.recursionLimit c.config.recursionLimit hi
    rw [show c.walk _ _ i = _ from hwalk, hf] at hyields
    exact hyields

/-- Makes a parameter that stands for a placeholder, whose associated type is a projection, whose
base is a parameter that stands for a parameter that stands for itself. -/
def mixKinds : List Command :=
  [.mint, .mint, .mint, .mint, .mint,
    .register (.bound ⟨45⟩ ⟨46⟩ (.parameter "A" .unknown)),
    .register (.new ⟨46⟩ (.placeholder "Item")), .mapPlaceholder ⟨46⟩ ⟨47⟩,
    .register (.new ⟨47⟩ (.projection ⟨⟨48⟩⟩ ⟨45⟩ ⟨46⟩ .none)),
    .register (.bound ⟨48⟩ ⟨49⟩ (.parameter "B" .unknown)),
    .register (.new ⟨49⟩ (.parameter "C" .unknown))]

/-- A store in which five types follow one another, with a limit. -/
def mixedKinds (limit : Nat) : Context :=
  (new { Config.standard with recursionLimit := limit }).run mixKinds

theorem reached_mixedKinds {limit : Nat} (h : limit = 4 ∨ limit = 5) :
    (mixedKinds limit).Reached := by
  refine ⟨{ Config.standard with recursionLimit := limit }, mixKinds, ?_, ?_, rfl⟩
  · rcases h with rfl | rfl <;> decide +kernel
  · rcases h with rfl | rfl
    all_goals
      refine ⟨trivial, ?_, trivial, ?_, trivial, ?_, trivial, ?_, trivial, ?_,
        show Slot.Below _ _ from ?_, ?_, show Slot.Below _ _ from ?_, ?_, trivial, ?_,
        show Slot.Below _ _ from ?_, ?_, show Slot.Below _ _ from ?_, ?_,
        show Slot.Below _ _ from ?_, ?_, trivial⟩
      all_goals decide +kernel

/-- Five steps are enough for them, and four are not. -/
theorem mixedKinds_goes_by_hops :
    (mixedKinds 5).terminal ⟨19⟩ = .ok ⟨23⟩ ∧
      (mixedKinds 4).terminal ⟨19⟩ = .error (.error (.limitExceeded ⟨45⟩ 4)) := by
  have hfive := (reached_mixedKinds (.inr rfl)).wellFormed
  have hfour := (reached_mixedKinds (.inl rfl)).wellFormed
  obtain ⟨s, hs⟩ : ∃ s, (mixedKinds 5).slot? ⟨19⟩ = some s :=
    exists_slot?_of_index_lt (by decide +kernel)
  obtain ⟨t, ht, hnode⟩ : ∃ t, (mixedKinds 4).slot? ⟨19⟩ = some t ∧ t.node = ⟨45⟩ :=
    Option.map_eq_some_iff.mp (by decide +kernel)
  have harrives : (mixedKinds 5).hops 5 ⟨19⟩ = .ok (some ⟨23⟩) := by rfl
  have hspent : (mixedKinds 4).hops 4 ⟨19⟩ = .ok none := by rfl
  have hlimit₅ : (mixedKinds 5).config.recursionLimit = 5 := by rfl
  have hlimit₄ : (mixedKinds 4).config.recursionLimit = 4 := by rfl
  constructor
  · rw [(terminal_goes_by_hops hfive.typesExist hfive.bindingsAgree hs).1, hlimit₅, harrives]
  · rw [(terminal_goes_by_hops hfour.typesExist hfour.bindingsAgree ht).1, hlimit₄, hspent, hnode]

end Context

end TypeStore
