import TypeStore.Context.Command

/-!
# How long a chain of parameters may be

A parameter may stand for a parameter that stands for another one, and so on. `parameterTarget`
follows such a chain at a step for every parameter but the first, which is free. So it comes to the
end of a chain exactly if the chain has at most one parameter more than the recursion limit has
steps. Whether there is a type at the end makes no difference to that.
-/

namespace TypeStore.Context

variable {c : Context} {i : SlotId} {s : Slot} {m : NodeId} {n : Nat}

/-! ## Chains -/

/-- A chain of parameters that stand for other nodes: how many there are, the slot of the first, and
the node that the last stands for. Every other one is bound to the one after it. -/
inductive ParameterChain (c : Context) : Nat → SlotId → NodeId → Prop
  | last {i : SlotId} {s : Slot} (slot : c.slot? i = some s) (rebound : s.isRebound = true) :
      ParameterChain c 1 i s.binding
  | link {n : Nat} {i next : SlotId} {s : Slot} {m : NodeId} (slot : c.slot? i = some s)
      (rebound : s.isRebound = true) (type : c.typeOf? s.binding = some next)
      (tail : ParameterChain c n next m) : ParameterChain c (n + 1) i m

/-- Nothing follows on the node: it has no type, or one in a slot that holds no parameter. -/
def EndsChain (c : Context) (m : NodeId) : Prop :=
  ∀ e, c.typeOf? m = some e → ∃ t, c.slot? e = some t ∧ t.isParameter = false

namespace ParameterChain

/-- A chain that starts at a parameter bound to itself never leaves it. -/
theorem eq_binding_of_loop (h : ParameterChain c n i m) (hs : c.slot? i = some s)
    (hloop : c.typeOf? s.binding = some i) : m = s.binding := by
  induction h with
  | last slot rebound =>
    rw [hs] at slot
    cases slot
    rfl
  | link slot rebound type tail ih =>
    rw [hs] at slot
    cases slot
    rw [hloop] at type
    cases type
    -- the next parameter is the same one again
    exact ih hs hloop

/-- So no parameter of a chain that comes to an end is bound to itself. -/
theorem typeOf?_ne_self (h : ParameterChain c n i m) (hend : c.EndsChain m)
    (hs : c.slot? i = some s) (hrebound : s.isRebound = true) :
    c.typeOf? s.binding ≠ some i := by
  intro hloop
  obtain rfl := h.eq_binding_of_loop hs hloop
  obtain ⟨t, ht, hnot⟩ := hend i hloop
  rw [hs] at ht
  cases ht
  rw [Slot.isParameter_of_isRebound hrebound] at hnot
  cases hnot

/-! ## Following a chain -/

/-- Inside a chain every parameter costs a step. The budget pays for the whole chain, and what is
left of it is for what comes after, or it is spent on the way. -/
theorem followBindings (h : ParameterChain c n i m) (hend : c.EndsChain m) (budget : Nat) :
    c.followBindings budget i =
      if n ≤ budget then c.typeOf m >>= c.followBindings (budget - n) else .ok none := by
  induction h generalizing budget with
  | last slot rebound =>
    cases budget with
    | zero => exact followBindings_zero_of_rebound slot rebound
    | succ budget =>
      have hne := (last slot rebound).typeOf?_ne_self hend slot rebound
      rw [followBindings_succ_of_ne slot rebound hne, if_pos (by omega), Nat.add_sub_cancel]
  | @link n i next s m slot rebound type tail ih =>
    cases budget with
    | zero =>
      rw [followBindings_zero_of_rebound slot rebound, if_neg (by omega)]
    | succ budget =>
      -- one step is paid here, the others by what is left
      have hne := (link slot rebound type tail).typeOf?_ne_self hend slot rebound
      rw [followBindings_succ_of_ne slot rebound hne, typeOf_eq_ok_iff.mpr type]
      show c.followBindings budget next = _
      rw [ih hend budget, Nat.add_sub_add_right]
      simp only [Nat.add_le_add_iff_right]

/-- The first parameter is free. -/
theorem followParameter (h : ParameterChain c n i m) (hend : c.EndsChain m) (budget : Nat) :
    c.followParameter budget i =
      if n ≤ budget + 1 then c.typeOf m >>= c.followBindings (budget + 1 - n) else .ok none := by
  cases h with
  | last slot rebound =>
    rw [followParameter_of_isParameter slot (Slot.isParameter_of_isRebound rebound),
      if_pos (by omega), Nat.add_sub_cancel]
  | @link n i next s m slot rebound type tail =>
    rw [followParameter_of_isParameter slot (Slot.isParameter_of_isRebound rebound),
      typeOf_eq_ok_iff.mpr type]
    show c.followBindings budget next = _
    rw [tail.followBindings hend budget, Nat.add_sub_add_right]
    simp only [Nat.add_le_add_iff_right]

/-- Following a chain as far as the recursion limit allows: the answer is the type at its end, or
the limit is exceeded. -/
theorem parameterTarget (h : ParameterChain c n i m) (hend : c.EndsChain m)
    (hs : c.slot? i = some s) :
    c.parameterTarget i =
      if n ≤ c.config.recursionLimit + 1 then c.typeOf m
      else .error (.error (.limitExceeded s.node c.config.recursionLimit)) := by
  rw [Context.parameterTarget, h.followParameter hend]
  by_cases hn : n ≤ c.config.recursionLimit + 1
  · rw [if_pos hn, if_pos hn]
    cases htype : c.typeOf? m with
    | none =>
      rw [typeOf_of_none htype]
      rfl
    | some e =>
      obtain ⟨t, ht, hnot⟩ := hend e htype
      have hrebound : t.isRebound = false := by simp [Slot.isRebound, hnot]
      have hself : t.isSelfBound = false := by simp [Slot.isSelfBound, hnot]
      rw [typeOf_eq_ok_iff.mpr htype]
      simp only [bind, Except.bind, followBindings_of_direct ht hrebound hself]
      rfl
  · rw [if_neg hn, if_neg hn, ← limitFault_of_slot? hs]
    rfl

end ParameterChain

/-- A chain of `n` parameters that stand for other nodes is followed to its end exactly if `n` is at
most one more than the recursion limit. At the end there is a type that is no parameter, which is
the answer, or a node without a type, which is the fault. A longer chain exceeds the limit, and the
fault names the first parameter. -/
theorem chain_followed_iff_within_limit (hchain : ParameterChain c n i m)
    (hs : c.slot? i = some s) :
    let limit := c.config.recursionLimit
    let refusal := Fault.error (.limitExceeded s.node limit)
    (∀ e t, c.typeOf? m = some e → c.slot? e = some t → t.isParameter = false →
      c.parameterTarget i = if n ≤ limit + 1 then .ok e else .error refusal) ∧
      (c.typeOf? m = none →
        c.parameterTarget i =
          if n ≤ limit + 1 then .error (.error (.unknownType m)) else .error refusal) := by
  intro limit refusal
  constructor
  · intro e t htype ht hnot
    have hend : c.EndsChain m := by
      intro e' htype'
      rw [htype] at htype'
      cases htype'
      exact ⟨t, ht, hnot⟩
    rw [hchain.parameterTarget hend hs, typeOf_eq_ok_iff.mpr htype]
  · intro htype
    have hend : c.EndsChain m := by
      intro e htype'
      rw [htype] at htype'
      cases htype'
    rw [hchain.parameterTarget hend hs, typeOf_of_none htype]

/-- Makes three parameters in a line that ends at a type, and three in a line that ends at a node
without one. -/
def lineUp : List Command :=
  [.mint, .mint, .mint, .mint, .mint, .mint, .mint, .mint,
    .register (.bound ⟨45⟩ ⟨46⟩ (.parameter "A" .unknown)),
    .register (.bound ⟨46⟩ ⟨47⟩ (.parameter "B" .unknown)),
    .register (.bound ⟨47⟩ ⟨48⟩ (.parameter "C" .unknown)),
    .register (.new ⟨48⟩ .str),
    .register (.bound ⟨49⟩ ⟨50⟩ (.parameter "D" .unknown)),
    .register (.bound ⟨50⟩ ⟨51⟩ (.parameter "E" .unknown)),
    .register (.bound ⟨51⟩ ⟨52⟩ (.parameter "F" .unknown))]

/-- A store with these parameters, and a single step to follow them. -/
def linedUp : Context := (new { Config.standard with recursionLimit := 1 }).run lineUp

/-- The last two parameters of a line are followed to the end, all three are not. -/
theorem linedUp_followed :
    linedUp.parameterTarget ⟨20⟩ = .ok ⟨22⟩ ∧
      linedUp.parameterTarget ⟨19⟩ = .error (.error (.limitExceeded ⟨45⟩ 1)) ∧
      linedUp.parameterTarget ⟨24⟩ = .error (.error (.unknownType ⟨52⟩)) ∧
      linedUp.parameterTarget ⟨23⟩ = .error (.error (.limitExceeded ⟨49⟩ 1)) := by
  have hlimit : linedUp.config.recursionLimit = 1 := by decide +kernel
  have hslots : linedUp.slot? ⟨19⟩ = some (.bound ⟨45⟩ ⟨46⟩ (.parameter "A" .unknown)) ∧
      linedUp.slot? ⟨20⟩ = some (.bound ⟨46⟩ ⟨47⟩ (.parameter "B" .unknown)) ∧
      linedUp.slot? ⟨21⟩ = some (.bound ⟨47⟩ ⟨48⟩ (.parameter "C" .unknown)) ∧
      linedUp.slot? ⟨22⟩ = some (.new ⟨48⟩ .str) ∧
      linedUp.slot? ⟨23⟩ = some (.bound ⟨49⟩ ⟨50⟩ (.parameter "D" .unknown)) ∧
      linedUp.slot? ⟨24⟩ = some (.bound ⟨50⟩ ⟨51⟩ (.parameter "E" .unknown)) ∧
      linedUp.slot? ⟨25⟩ = some (.bound ⟨51⟩ ⟨52⟩ (.parameter "F" .unknown)) := by
    decide +kernel
  have htypes : linedUp.typeOf? ⟨46⟩ = some ⟨20⟩ ∧ linedUp.typeOf? ⟨47⟩ = some ⟨21⟩ ∧
      linedUp.typeOf? ⟨48⟩ = some ⟨22⟩ ∧ linedUp.typeOf? ⟨50⟩ = some ⟨24⟩ ∧
      linedUp.typeOf? ⟨51⟩ = some ⟨25⟩ ∧ linedUp.typeOf? ⟨52⟩ = none := by
    decide +kernel
  obtain ⟨hA, hB, hC, hend, hD, hE, hF⟩ := hslots
  obtain ⟨hAB, hBC, htyped, hDE, hEF, huntyped⟩ := htypes
  have hBC : ParameterChain linedUp 2 ⟨20⟩ ⟨48⟩ := .link hB rfl hBC (.last hC rfl)
  have hEF : ParameterChain linedUp 2 ⟨24⟩ ⟨52⟩ := .link hE rfl hEF (.last hF rfl)
  have hABC : ParameterChain linedUp 3 ⟨19⟩ ⟨48⟩ := .link hA rfl hAB hBC
  have hDEF : ParameterChain linedUp 3 ⟨23⟩ ⟨52⟩ := .link hD rfl hDE hEF
  refine ⟨?_, ?_, ?_, ?_⟩
  · rw [(chain_followed_iff_within_limit hBC hB).1 _ _ htyped hend rfl, hlimit]
    rfl
  · rw [(chain_followed_iff_within_limit hABC hA).1 _ _ htyped hend rfl, hlimit]
    rfl
  · rw [(chain_followed_iff_within_limit hEF hE).2 huntyped, hlimit]
    rfl
  · rw [(chain_followed_iff_within_limit hDEF hD).2 huntyped, hlimit]
    rfl

end TypeStore.Context
