import TypeStore.Proofs.Persistence
import TypeStore.Proofs.Resolution

/-!
# Copies that fail

A copy notes down what it would write into the tables and writes it when it is done. So a copy
that fails leaves every table as it was, however deep it got and however many children it had
copied by then. What remains of it are slots behind the ones that were there and nodes that were
used up, at most one for each of those slots.

There are two refusals, a node without a type and a copy that goes too deep. A missing slot is the
fault of whoever asked for it.
-/

namespace TypeStore

namespace NodeSupply

/-- The last of several ids is handed out after all the others. -/
theorem take_succ_snd (s : NodeSupply) (count : Nat) :
    (s.take (count + 1)).2 = (s.take count).2.fresh.2 := by
  induction count generalizing s with
  | zero => rfl
  | succ count ih => exact ih s.fresh.2

end NodeSupply

namespace Context

variable {c c' : Context} {f : Fault}

/-! ## What remains -/

/-- Slots were added behind the others and nodes were used up, no more of them than slots. -/
def Consumes (c : Context) (slots : Array Slot) (nodes : Nat) (c' : Context) : Prop :=
  nodes ≤ slots.size ∧ c'.arena = c.arena ++ slots ∧ c'.supply = (c.supply.take nodes).2

theorem Consumes.step {m : Context} {slots : Array Slot} {nodes : Nat}
    (h : c.Consumes slots nodes m) (step : CopyStep m c') :
    ∃ slots' nodes', c.Consumes slots' nodes' c' := by
  obtain ⟨hle, harena, hsupply⟩ := h
  cases step with
  | @push i s vars slot composite typed =>
    refine ⟨slots.push (s.withOwned vars), nodes, ?_, ?_, hsupply⟩
    · simp
      omega
    · show m.arena.push _ = _
      rw [harena, Array.append_push]
  | adopt slot => exact ⟨slots, nodes, hle, harena, hsupply⟩
  | @rename i s state location locations slot infer =>
    refine ⟨slots.push (s.renamedInfer m.supply.next state location), nodes + 1, ?_, ?_, ?_⟩
    · simpa using hle
    · show m.arena.push _ = _
      rw [harena, Array.append_push]
    · rw [NodeSupply.take_succ_snd, ← hsupply]
      rfl

/-- Every copy, finished or not, adds slots and uses up nodes. -/
theorem CopySteps.consumes (steps : CopySteps c c') :
    ∃ slots nodes, c.Consumes slots nodes c' := by
  induction steps with
  | refl => exact ⟨#[], 0, Nat.le_refl _, by simp, rfl⟩
  | tail _ step ih =>
    obtain ⟨slots, nodes, h⟩ := ih
    exact h.step step

/-! ## Why copies fail -/

/-- The faults that end a copy: a node without a type, going down too far, a missing slot. -/
def EndsCopy (c : Context) (f : Fault) : Prop :=
  c.Untyped f ∨ (∃ n, f = .error (.limitExceeded n c.config.recursionLimit)) ∨
    ∃ i, f = .missingSlot i

theorem endsCopy_slot (i : SlotId) (d : Draft) :
    RunYields c.EndsCopy (fun _ _ => True) (Copying.slot i d) := by
  unfold Copying.slot
  split
  · trivial
  · exact .inr (.inr ⟨i, rfl⟩)

theorem endsCopy_target (v : TypeVar) (d : Draft) :
    RunYields c.EndsCopy (fun _ _ => True) (Copying.target c v d) := by
  unfold Copying.target typeOf
  cases d.bindings.lookup v.node with
  | some i => trivial
  | none =>
    cases htype : c.typeOf? v.node with
    | some i => trivial
    | none => exact .inl ⟨v.node, rfl, htype⟩

theorem endsCopy_adopt (j : SlotId) (d : Draft) :
    RunYields c.EndsCopy (fun _ _ => True) (Copying.adopt j d) :=
  RunYields.bind (endsCopy_slot j d) fun _ _ _ => trivial

section Children

variable {copy : SlotId → Copying SlotId}
  (hcopy : ∀ i d, RunYields c.EndsCopy (fun _ _ => True) (copy i d))

include hcopy

theorem endsCopy_copyChild (v : TypeVar) (d : Draft) :
    RunYields c.EndsCopy (fun _ _ => True) (c.copyChild copy v d) := by
  refine RunYields.bind (endsCopy_target v d) fun i d₁ _ => ?_
  split
  · trivial
  · exact RunYields.bind (hcopy i d₁) fun j d₂ _ => endsCopy_adopt j d₂

theorem endsCopy_copyChildren (vars : List TypeVar) (d : Draft) :
    RunYields c.EndsCopy (fun _ _ => True) (c.copyChildren copy vars d) := by
  induction vars generalizing d with
  | nil => trivial
  | cons v rest ih =>
    refine RunYields.bind (endsCopy_copyChild hcopy v d) fun w d₁ _ => ?_
    exact RunYields.bind (ih d₁) fun ws d₂ _ => trivial

end Children

theorem endsCopy_copySlot (c : Context) (fuel : Nat) (i : SlotId) (d : Draft) :
    RunYields c.EndsCopy (fun _ _ => True) (c.copySlot fuel i d) := by
  induction fuel generalizing i d with
  | zero =>
    exact RunYields.bind (endsCopy_slot i d) fun s _ _ => .inr (.inl ⟨s.node, rfl⟩)
  | succ fuel ih =>
    refine RunYields.bind (endsCopy_slot i d) fun s d₁ _ => ?_
    cases s.shape with
    | infer state location => trivial
    | _ => exact RunYields.bind (endsCopy_copyChildren ih _ d₁) fun vars d₂ _ => trivial

/-! ## Failed copies -/

theorem finish_eq_error {α : Type} {x : Copying α} (h : c.finish x = (.error f, c')) :
    ∃ d, x (.start c) = .error f d ∧ c' = d.abandon c := by
  unfold finish EStateM.run at h
  cases hx : x (.start c) with
  | ok a d =>
    rw [hx] at h
    cases h
  | error e d =>
    rw [hx] at h
    cases h
    exact ⟨d, rfl, rfl⟩

/-- The second store differs from the first by what a copy that came to nothing has used up. -/
def LeftOver (c c' : Context) : Prop :=
  ∃ (slots : Array Slot) (nodes : Nat), nodes ≤ slots.size ∧
    c' = { c with arena := c.arena ++ slots, supply := (c.supply.take nodes).2 }

theorem leftOver_of_finish {α : Type} {x : Copying α}
    (steps : CopySteps c ((x.after (.start c)).commit c))
    (hends : RunYields c.EndsCopy (fun _ _ => True) (x (.start c)))
    (h : c.finish x = (.error f, c')) : c.LeftOver c' ∧ c.EndsCopy f := by
  obtain ⟨d, hrun, rfl⟩ := finish_eq_error h
  rw [Copying.after_of_error hrun] at steps
  rw [hrun] at hends
  obtain ⟨slots, nodes, hle, harena, hsupply⟩ := CopySteps.consumes steps
  refine ⟨⟨slots, nodes, hle, ?_⟩, hends⟩
  rw [Draft.abandon, ← harena, ← hsupply]
  rfl

/-- A copy that fails leaves the store as it was, apart from slots behind the ones that were there
and nodes that were used up. It fails for want of a type, for going down too far, or because it
was asked for a slot that is not there. -/
theorem failed_copy_leaves_tables (c c' : Context) (f : Fault) :
    (∀ i, c.copy i = (.error f, c') → c.LeftOver c' ∧ c.EndsCopy f) ∧
      ∀ v, c.copyVar v = (.error f, c') → c.LeftOver c' ∧ c.EndsCopy f := by
  constructor
  · intro i h
    exact leftOver_of_finish (steps_copy c i) (endsCopy_copySlot c _ i _) h
  · intro v h
    exact leftOver_of_finish (steps_copyVar c v)
      (endsCopy_copyChild (endsCopy_copySlot c _) v _) h

/-- A store with a pair of a tuple that can be copied and a node without a type. -/
def halfTypedPair : Context :=
  (nestedTuples.exec (.register (.new ⟨60⟩ (.tuple [⟨⟨46⟩⟩, ⟨⟨99⟩⟩])))).2

/-- By the time the copy of the pair fails, the tuple and the inference variable in it are copied;
the tuple has its old type all the same. -/
theorem halfTypedPair_keeps_types :
    (halfTypedPair.copy ⟨22⟩).1 = .error (.error (.unknownType ⟨99⟩)) ∧
      (halfTypedPair.copy ⟨22⟩).2.size = halfTypedPair.size + 2 ∧
      (halfTypedPair.copy ⟨22⟩).2.supply = (halfTypedPair.supply.take 1).2 ∧
      (halfTypedPair.copy ⟨22⟩).2.types = halfTypedPair.types ∧
      (halfTypedPair.copy ⟨22⟩).2.facts = halfTypedPair.facts := by
  have hanswer : (halfTypedPair.copy ⟨22⟩).1 = .error (.error (.unknownType ⟨99⟩)) := by
    decide +kernel
  obtain ⟨hcopy, -⟩ := failed_copy_leaves_tables halfTypedPair (halfTypedPair.copy ⟨22⟩).2
    (.error (.unknownType ⟨99⟩))
  obtain ⟨⟨slots, nodes, -, hleft⟩, -⟩ := hcopy ⟨22⟩ (Prod.ext hanswer rfl)
  refine ⟨hanswer, by decide +kernel, by decide +kernel, ?_, ?_⟩
  · rw [hleft]
  · rw [hleft]

end Context

end TypeStore
