import TypeStore.Proofs.Answer
import TypeStore.Proofs.Session

/-!
# How resolutions end

A resolution follows parameters, placeholders and projections through the table of types. In a
store whose table names slots of the arena only, it ends in one of three ways: at a slot, at a node
that has no type, or with its budget spent. The two ways to resolve agree on the first two and
leave the store alone. On the third, `terminal` refuses, and `resolve` makes a slot for the error
and reports what the refusal says.
-/

namespace TypeStore

/-- The slot that a stage of a walk came to. -/
def Trail.slot? : Trail → Option SlotId
  | .settled i => some i
  | .onward i _ => some i
  | .exhausted => none

namespace Context

variable {c : Context}

/-- The arena has a slot with this id. -/
def Has (c : Context) (i : SlotId) : Prop := i.index < c.size

instance (c : Context) (i : SlotId) : Decidable (c.Has i) :=
  inferInstanceAs (Decidable (i.index < c.size))

/-- The table of types names slots of the arena only. -/
def TypesExist (c : Context) : Prop := ∀ n i, c.typeOf? n = some i → c.Has i

/-- The fault of asking for the type of a node that has none. -/
def Untyped (c : Context) (f : Fault) : Prop :=
  ∃ n, f = .error (.unknownType n) ∧ c.typeOf? n = none

theorem WellFormed.typesExist (h : c.WellFormed) : c.TypesExist := by
  intro n i hn
  obtain ⟨s, hs, -⟩ := h.made hn
  exact index_lt_of_slot? hs

/-! ## Walks stay in the arena -/

theorem yields_slot {P : Fault → Prop} {i : SlotId} (hi : c.Has i) :
    Yields P (fun s => c.slot? i = some s) (c.slot i) := by
  obtain ⟨s, hs⟩ := exists_slot?_of_index_lt hi
  rw [slot_eq_ok_iff.mpr hs]
  exact hs

theorem yields_typeOf (h : c.TypesExist) (n : NodeId) : Yields c.Untyped c.Has (c.typeOf n) := by
  unfold typeOf
  split
  · exact h n _ ‹_›
  · exact ⟨n, rfl, ‹_›⟩

theorem yields_followBindings (h : c.TypesExist) (budget : Nat) {i : SlotId} (hi : c.Has i) :
    Yields c.Untyped (fun r => ∀ p ∈ r, c.Has p.1) (c.followBindings budget i) := by
  -- the end of a chain, whatever is left of the budget
  have hend : ∀ (budget : Nat) (j : SlotId), c.Has j →
      ∀ p ∈ some (j, budget), c.Has p.1 := by
    rintro budget j hj p ⟨⟩
    exact hj
  induction budget generalizing i with
  | zero =>
    unfold followBindings
    refine (yields_slot hi).bind fun s _ => ?_
    split
    · exact fun _ hj => absurd hj (Option.not_mem_none _)
    · split
      · exact (yields_typeOf h s.binding).bind fun j hj => hend 0 j hj
      · exact hend 0 i hi
  | succ budget ih =>
    unfold followBindings
    refine (yields_slot hi).bind fun s _ => ?_
    split
    · refine (yields_typeOf h s.binding).bind fun next hnext => ?_
      split
      · exact hend budget i hi
      · exact ih hnext
    · split
      · exact (yields_typeOf h s.binding).bind fun j hj => hend _ j hj
      · exact hend _ i hi

/-- Following a parameter; nothing else can be followed. -/
theorem yields_followParameter (h : c.TypesExist) (budget : Nat) {i : SlotId} {s : Slot}
    (hs : c.slot? i = some s) (hparameter : s.isParameter = true) :
    Yields c.Untyped (fun r => ∀ p ∈ r, c.Has p.1) (c.followParameter budget i) := by
  unfold followParameter
  rw [slot_eq_ok_iff.mpr hs]
  show Yields _ _ (if s.isParameter then _ else _)
  rw [if_pos hparameter]
  exact (yields_typeOf h s.binding).bind fun j hj => yields_followBindings h budget hj

theorem yields_stage (h : c.TypesExist) (budget : Nat) {i : SlotId} {s : Slot}
    (hs : c.slot? i = some s) :
    Yields c.Untyped (fun trail => ∀ j ∈ trail.slot?, c.Has j) (c.stage budget i s) := by
  have hsettled : Yields c.Untyped (fun trail : Trail => ∀ j ∈ trail.slot?, c.Has j)
      (.ok (.settled i)) := by
    rintro j ⟨⟩
    exact index_lt_of_slot? hs
  have honward : ∀ n, Yields c.Untyped (fun trail : Trail => ∀ j ∈ trail.slot?, c.Has j)
      (do return .onward (← c.typeOf n) budget) := by
    intro n
    refine (yields_typeOf h n).bind ?_
    rintro j hj _ ⟨⟩
    exact hj
  unfold stage
  split
  · rename_i name location hshape
    have hparameter : s.isParameter = true := by rw [Slot.isParameter, hshape]
    refine (yields_followParameter h budget hs hparameter).bind fun r hr => ?_
    cases r with
    | none => exact fun _ hj => absurd hj (Option.not_mem_none _)
    | some p =>
      dsimp only
      split
      · exact hsettled
      · rintro j ⟨⟩
        exact hr p rfl
  · split
    · exact hsettled
    · exact honward _
  · exact honward _
  · exact hsettled

theorem yields_walk (h : c.TypesExist) (rounds budget : Nat) {i : SlotId} (hi : c.Has i) :
    Yields c.Untyped (fun r => ∀ j ∈ r, c.Has j) (c.walk rounds budget i) := by
  have hend : ∀ j, c.Has j → ∀ k ∈ some j, c.Has k := by
    rintro j hj _ ⟨⟩
    exact hj
  induction rounds generalizing budget i with
  | zero =>
    unfold walk
    refine (yields_slot hi).bind fun s _ => ?_
    split
    · exact fun _ hj => absurd hj (Option.not_mem_none _)
    · exact hend i hi
  | succ rounds ih =>
    unfold walk
    refine (yields_slot hi).bind fun s hs => ?_
    split
    · cases budget with
      | zero => exact fun _ hj => absurd hj (Option.not_mem_none _)
      | succ budget =>
        refine (yields_stage h budget hs).bind fun trail htrail => ?_
        cases trail with
        | settled j => exact hend j (htrail j rfl)
        | onward j rest => exact ih rest (htrail j rfl)
        | exhausted => exact fun _ hj => absurd hj (Option.not_mem_none _)
    · exact hend i hi

/-! ## The two ways to resolve -/

/-- Both come to the same slot, and the store stays as it is. -/
def BothArrive (c : Context) (i : SlotId) : Prop :=
  ∃ j, c.terminal i = .ok j ∧ c.resolve i = (.ok j, c)

/-- Both meet the same node without a type, and the store stays as it is. -/
def BothMeetUntyped (c : Context) (i : SlotId) : Prop :=
  ∃ n, c.typeOf? n = none ∧ c.terminal i = .error (.error (.unknownType n)) ∧
    c.resolve i = (.error (.error (.unknownType n)), c)

/-- The budget is spent: one refuses, the other answers with a new slot for the error and queues
the report of the refusal. The report points at the location recorded for the node, or else at the
declaration. -/
def BudgetSpent (c : Context) (i : SlotId) : Prop :=
  ∃ s, c.slot? i = some s ∧
    let e := StoreError.limitExceeded s.node c.config.recursionLimit
    let location := (c.location? s.node).getD s.declaration.location
    c.terminal i = .error (.error e) ∧
      c.resolve i = (.ok ⟨c.size⟩, { c with
        arena := c.arena.push (.new s.node .error)
        queue := (c.queue.add (e.toDiagnostic location)).2 })

theorem bothArrive_of_walkFrom {i j : SlotId} (h : c.walkFrom i = .ok (some j)) :
    c.BothArrive i := by
  refine ⟨j, ?_, ?_⟩
  · rw [terminal, h]
    rfl
  · rw [resolve, h]

theorem bothMeetUntyped_of_walkFrom {i : SlotId} {f : Fault} (h : c.walkFrom i = .error f)
    (hf : c.Untyped f) : c.BothMeetUntyped i := by
  obtain ⟨n, rfl, hn⟩ := hf
  refine ⟨n, hn, ?_, ?_⟩
  · rw [terminal, h]
    rfl
  · rw [resolve, h]

theorem budgetSpent_of_walkFrom {i : SlotId} {s : Slot} (h : c.walkFrom i = .ok none)
    (hs : c.slot? i = some s) (hroom : c.size < 2 ^ 32) : c.BudgetSpent i := by
  have hslot := slot_eq_ok_iff.mpr hs
  have hnext : nextSlot c.arena = ⟨c.size⟩ := SlotId.ext (index_nextSlot hroom)
  refine ⟨s, hs, ?_, ?_⟩
  · rw [terminal, h]
    show Except.error (c.limitFault i) = _
    rw [limitFault_of_slot? hs]
  · rw [resolve, h]
    simp only [hslot, allocate, report]
    rw [hnext]
    rfl

/-- Where the table of types names slots of the arena only, the two ways to resolve a slot end in
exactly one of three ways; so neither has any other fault. -/
theorem resolve_agrees_with_terminal {i : SlotId} (h : c.TypesExist) (hroom : c.size < 2 ^ 32)
    (hi : c.Has i) :
    (c.BothArrive i ∨ c.BothMeetUntyped i ∨ c.BudgetSpent i) ∧
      ¬ (c.BothArrive i ∧ c.BothMeetUntyped i) ∧ ¬ (c.BothArrive i ∧ c.BudgetSpent i) ∧
      ¬ (c.BothMeetUntyped i ∧ c.BudgetSpent i) := by
  refine ⟨?_, ?_, ?_, ?_⟩
  · have hwalk := yields_walk h c.config.recursionLimit c.config.recursionLimit hi
    cases hrun : c.walkFrom i with
    | error f =>
      rw [walkFrom] at hrun
      rw [hrun] at hwalk
      exact .inr (.inl (bothMeetUntyped_of_walkFrom hrun hwalk))
    | ok r =>
      cases r with
      | some j => exact .inl (bothArrive_of_walkFrom hrun)
      | none =>
        obtain ⟨s, hs⟩ := exists_slot?_of_index_lt hi
        exact .inr (.inr (budgetSpent_of_walkFrom hrun hs hroom))
  · rintro ⟨⟨j, hj, -⟩, n, -, hn, -⟩
    rw [hj] at hn
    cases hn
  · rintro ⟨⟨j, hj, -⟩, s, -, hs, -⟩
    rw [hj] at hs
    cases hs
  · rintro ⟨⟨n, -, hn, -⟩, s, -, hs, -⟩
    rw [hn] at hs
    cases hs

/-- Makes two parameters that stand for each other. -/
def crossParameters : List Command :=
  [.mint, .mint, .register (.bound ⟨45⟩ ⟨46⟩ (.parameter "A" .unknown)),
    .register (.bound ⟨46⟩ ⟨45⟩ (.parameter "B" .unknown))]

/-- A store with two parameters that stand for each other, and three steps to resolve them. -/
def crossedParameters : Context :=
  (new { Config.standard with recursionLimit := 3 }).run crossParameters

theorem reached_crossedParameters : crossedParameters.Reached := by
  refine ⟨{ Config.standard with recursionLimit := 3 }, crossParameters, ?_,
    ⟨trivial, ?_, trivial, ?_, show Slot.Below _ _ from ?_, ?_, show Slot.Below _ _ from ?_, ?_,
      trivial⟩, rfl⟩
  all_goals decide +kernel

/-- Resolving one of them spends the budget. -/
theorem crossedParameters_budgetSpent :
    crossedParameters.TypesExist ∧ crossedParameters.Has ⟨19⟩ ∧
      crossedParameters.BudgetSpent ⟨19⟩ := by
  have htypes := reached_crossedParameters.wellFormed.typesExist
  have hi : crossedParameters.Has ⟨19⟩ := by decide +kernel
  have hterminal : crossedParameters.terminal ⟨19⟩ = .error (.error (.limitExceeded ⟨45⟩ 3)) := by
    rfl
  obtain ⟨⟨j, hj, -⟩ | ⟨n, -, hn, -⟩ | hspent, -⟩ :=
    resolve_agrees_with_terminal htypes (by decide +kernel) hi
  · rw [hterminal] at hj
    cases hj
  · rw [hterminal] at hn
    cases hn
  · exact ⟨htypes, hi, hspent⟩

end Context

end TypeStore
