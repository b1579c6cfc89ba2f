import TypeStore.Context.Concrete
import TypeStore.Context.Resolve
import TypeStore.Proofs.Answer
import TypeStore.Proofs.Copying.Copied
import TypeStore.Proofs.Rendering

/-!
# Questions to a store that knows more

One store upholds another when it finds every slot, type and associated type that the other finds.
Then it also answers every question about types as the other does: whatever was an answer stays
the answer. The faults that may pass are a parameter, so that one set of lemmas serves stores that
have grown (any fault may pass), stores with one more type (only the lack of that type may) and
stores with a higher limit (only exceeding it may).
-/

namespace TypeStore

theorem RunPersists.ask {α : Type} {P : Fault → Prop} {x y : Except Fault α}
    (h : Persists P x y) (b : String) : RunPersists P (Writing.ask x b) (Writing.ask y b) := by
  rcases h with rfl | ⟨f, hf, rfl⟩
  · exact .refl _
  · exact .of_fault hf b _

theorem Copying.slot_eq_error {i : SlotId} {d d' : Draft} {f : Fault}
    (h : slot i d = .error f d') : d = d' := by
  rw [← after_of_error h, after_slot]

namespace Context

variable {P : Fault → Prop} {c c' : Context}

/-- The second store finds what the first one finds. -/
structure Upholds (P : Fault → Prop) (c c' : Context) : Prop where
  slot : ∀ i, Persists P (c.slot i) (c'.slot i)
  typeOf : ∀ n, Persists P (c.typeOf n) (c'.typeOf n)
  associated : ∀ n : NodeId, c'.facts.associatedTypes[n]? = c.facts.associatedTypes[n]?

namespace Upholds

theorem associatedNode?_eq (h : Upholds P c c') (s : Slot) :
    c'.associatedNode? s = c.associatedNode? s :=
  h.associated s.binding

/-! ## Resolution -/

theorem followBindings (h : Upholds P c c') (budget : Nat) (i : SlotId) :
    Persists P (c.followBindings budget i) (c'.followBindings budget i) := by
  induction budget generalizing i with
  | zero =>
    unfold Context.followBindings
    refine (h.slot i).bind fun s _ => .ite (fun _ => .refl _) fun _ => ?_
    exact .ite (fun _ => (h.typeOf s.binding).bind fun _ _ => .refl _) fun _ => .refl _
  | succ budget ih =>
    unfold Context.followBindings
    refine (h.slot i).bind fun s _ => .ite (fun _ => ?_) fun _ => ?_
    · refine (h.typeOf s.binding).bind fun next _ => ?_
      exact .ite (fun _ => .refl _) fun _ => ih next
    · exact .ite (fun _ => (h.typeOf s.binding).bind fun _ _ => .refl _) fun _ => .refl _

theorem followParameter (h : Upholds P c c') (budget : Nat) (i : SlotId) :
    Persists P (c.followParameter budget i) (c'.followParameter budget i) := by
  refine (h.slot i).bind fun s _ => .ite (fun _ => ?_) fun _ => .refl _
  exact (h.typeOf s.binding).bind fun j _ => h.followBindings budget j

theorem stage (h : Upholds P c c') (budget : Nat) (i : SlotId) (s : Slot) :
    Persists P (c.stage budget i s) (c'.stage budget i s) := by
  unfold Context.stage
  rw [h.associatedNode?_eq]
  split
  · refine (h.followParameter budget i).bind fun r _ => .refl _
  · cases c.associatedNode? s with
    | none => exact .refl _
    | some n => exact (h.typeOf n).bind fun j _ => .refl _
  · exact (h.typeOf _).bind fun j _ => .refl _
  · exact .refl _

theorem walk (h : Upholds P c c') (rounds budget : Nat) (i : SlotId) :
    Persists P (c.walk rounds budget i) (c'.walk rounds budget i) := by
  induction rounds generalizing budget i with
  | zero =>
    unfold Context.walk
    exact (h.slot i).bind fun s _ => .refl _
  | succ rounds ih =>
    unfold Context.walk
    refine (h.slot i).bind fun s _ => .ite (fun _ => ?_) fun _ => .refl _
    cases budget with
    | zero => exact .refl _
    | succ budget =>
      refine (h.stage budget i s).bind fun trail _ => ?_
      cases trail with
      | settled j => exact .refl _
      | onward j rest => exact ih rest j
      | exhausted => exact .refl _

theorem placeholderTarget (h : Upholds P c c') (i : SlotId) :
    Persists P (c.placeholderTarget i) (c'.placeholderTarget i) := by
  have hplaceholder : Persists P (c.placeholder i) (c'.placeholder i) :=
    (h.slot i).bind fun s _ => .refl _
  refine hplaceholder.bind fun s _ => ?_
  rw [h.associatedNode?_eq]
  cases c.associatedNode? s with
  | none => exact .refl _
  | some n => exact h.typeOf n

end Upholds

/-! ## Limits -/

theorem error_limitFault {α : Type} (c : Context) (i : SlotId) :
    (.error (c.limitFault i) : Except Fault α)
      = c.slot i >>= fun s => .error (.error (.limitExceeded s.node c.config.recursionLimit)) := by
  unfold limitFault
  cases c.slot i <;> rfl

/-- How many levels two runs may go down: as many as each other under one limit, or more in the
second run if exceeding the limit may pass. -/
inductive Deepens (P : Fault → Prop) (c c' : Context) : Nat → Nat → Prop
  | same (limit : c'.config.recursionLimit = c.config.recursionLimit) (n : Nat) :
      Deepens P c c' n n
  | more (passes : ∀ k l, P (.error (.limitExceeded k l))) {n m : Nat} (le : n ≤ m) :
      Deepens P c c' n m

theorem Deepens.pred {n m : Nat} (h : Deepens P c c' (n + 1) m) :
    ∃ k, m = k + 1 ∧ Deepens P c c' n k := by
  cases h with
  | same limit => exact ⟨n, rfl, .same limit n⟩
  | more passes le => exact ⟨m - 1, by omega, .more passes (by omega)⟩

theorem Upholds.limitFault {α : Type} (h : Upholds P c c')
    (hlimit : c'.config.recursionLimit = c.config.recursionLimit) (i : SlotId) :
    Persists P (.error (c.limitFault i) : Except Fault α) (.error (c'.limitFault i)) := by
  rw [error_limitFault, error_limitFault, hlimit]
  exact (h.slot i).bind fun s _ => .refl _

theorem Upholds.terminal (h : Upholds P c c')
    (hlimit : c'.config.recursionLimit = c.config.recursionLimit) (i : SlotId) :
    Persists P (c.terminal i) (c'.terminal i) := by
  unfold Context.terminal walkFrom
  rw [hlimit]
  refine (h.walk _ _ i).bind fun r _ => ?_
  cases r with
  | some j => exact .refl _
  | none => exact h.limitFault hlimit i

theorem Upholds.parameterTarget (h : Upholds P c c')
    (hlimit : c'.config.recursionLimit = c.config.recursionLimit) (i : SlotId) :
    Persists P (c.parameterTarget i) (c'.parameterTarget i) := by
  unfold Context.parameterTarget
  rw [hlimit]
  refine (h.followParameter _ i).bind fun r _ => ?_
  cases r with
  | some r => exact .refl _
  | none => exact h.limitFault hlimit i

/-! ## Concreteness -/

theorem allConcrete_cons_eq (c : Context) (check : SlotId → Except Fault Bool) (v : TypeVar)
    (rest : List TypeVar) :
    c.allConcrete check (v :: rest)
      = c.typeOf v.node >>= fun i => check i >>= fun b =>
        if b then c.allConcrete check rest else .ok false := by
  rw [allConcrete]
  cases c.typeOf v.node with
  | error f => rfl
  | ok i =>
    dsimp only [bind, Except.bind]
    cases check i with
    | error f => rfl
    | ok b => cases b <;> rfl

theorem concreteWithin_succ (c : Context) (fuel : Nat) (entered : List NodeId) (i : SlotId) :
    c.concreteWithin (fuel + 1) entered i
      = c.slot i >>= fun s =>
        match s.shape.demand with
        | .settled b => .ok b
        | .all vars => c.allConcrete (c.concreteWithin fuel entered) vars
        | .fields vars =>
          if entered.contains s.node then .ok true
          else c.allConcrete (c.concreteWithin fuel (s.node :: entered)) vars
        | .closure parameters result =>
          c.allConcrete (c.concreteWithin fuel entered) [parameters] >>= fun b =>
            if b then .ok false
            else c.allConcrete (c.concreteWithin fuel entered) [result] := by
  rw [concreteWithin, demandOf]
  cases c.slot i with
  | error f => rfl
  | ok s =>
    dsimp only [bind, Except.bind, pure, Except.pure]
    cases s.shape.demand with
    | closure parameters result =>
      dsimp only
      cases c.allConcrete (c.concreteWithin fuel entered) [parameters] with
      | error f => rfl
      | ok b => cases b <;> rfl
    | _ => rfl

theorem concreteWithin_of_error {fuel : Nat} {entered : List NodeId} {i : SlotId} {f : Fault}
    (h : c.slot i = .error f) : c.concreteWithin fuel entered i = .error f := by
  cases fuel with
  | zero => rw [concreteWithin, error_limitFault, h]; rfl
  | succ fuel => rw [concreteWithin_succ, h]; rfl

namespace Upholds

theorem allConcrete (h : Upholds P c c') {check check' : SlotId → Except Fault Bool}
    (hcheck : ∀ i, Persists P (check i) (check' i)) (vars : List TypeVar) :
    Persists P (c.allConcrete check vars) (c'.allConcrete check' vars) := by
  induction vars with
  | nil => exact .refl _
  | cons v rest ih =>
    rw [allConcrete_cons_eq, allConcrete_cons_eq]
    refine (h.typeOf v.node).bind fun i _ => (hcheck i).bind fun b _ => ?_
    exact .ite (fun _ => ih) fun _ => .refl _

theorem concreteWithin (h : Upholds P c c') {n m : Nat} (hnm : Deepens P c c' n m)
    (entered : List NodeId) (i : SlotId) :
    Persists P (c.concreteWithin n entered i) (c'.concreteWithin m entered i) := by
  induction n generalizing m entered i with
  | zero =>
    cases hnm with
    | same limit => exact h.limitFault limit i
    | more passes le =>
      rw [Context.concreteWithin, error_limitFault]
      rcases h.slot i with heq | ⟨f, hf, heq⟩
      · cases hslot : c.slot i with
        | ok s => exact .of_fault (passes _ _) _
        | error f =>
          rw [concreteWithin_of_error (heq.trans hslot)]
          exact .refl _
      · rw [heq]
        exact .of_fault hf _
  | succ n ih =>
    obtain ⟨k, rfl, hnk⟩ := hnm.pred
    rw [concreteWithin_succ, concreteWithin_succ]
    refine (h.slot i).bind fun s _ => ?_
    cases s.shape.demand with
    | settled b => exact .refl _
    | all vars => exact h.allConcrete (ih hnk entered) vars
    | fields vars => exact .ite (fun _ => .refl _) fun _ => h.allConcrete (ih hnk _) vars
    | closure parameters result =>
      refine (h.allConcrete (ih hnk entered) _).bind fun b _ => ?_
      exact .ite (fun _ => .refl _) fun _ => h.allConcrete (ih hnk entered) _

end Upholds

/-! ## Texts -/

namespace Upholds

theorem layoutOf (h : Upholds P c c') (i : SlotId) :
    Persists P (c.layoutOf i) (c'.layoutOf i) :=
  (h.slot i).bind fun _ _ => .refl _

theorem writePieces (h : Upholds P c c') {write write' : SlotId → Writing Unit}
    (hwrite : ∀ i b, RunPersists P (write i b) (write' i b)) (pieces : List Piece) (b : String) :
    RunPersists P (c.writePieces write pieces b) (c'.writePieces write' pieces b) := by
  induction pieces generalizing b with
  | nil => exact .refl _
  | cons piece rest ih =>
    cases piece with
    | text s => exact ih (b ++ s)
    | child v =>
      unfold Context.writePieces
      refine RunPersists.bind (RunPersists.ask (h.typeOf v.node) b) fun i b' _ => ?_
      exact RunPersists.bind (hwrite i b') fun _ b'' _ => ih b''

theorem writeSlot (h : Upholds P c c') (n : Nat) (i : SlotId) (b : String) :
    RunPersists P (c.writeSlot n i b) (c'.writeSlot n i b) := by
  induction n generalizing i b with
  | zero => exact .refl _
  | succ n ih =>
    unfold Context.writeSlot
    refine RunPersists.bind (RunPersists.ask (h.layoutOf i) b) fun pieces b' _ => ?_
    exact h.writePieces ih pieces b'

end Upholds

/-! ## Copies -/

/-- The second store also has the builtin types and the locations of the first, which a copy
reads as well. -/
structure UpholdsCopies (P : Fault → Prop) (c c' : Context) : Prop extends Upholds P c c' where
  builtin : ∀ i, c'.isBuiltin i = c.isBuiltin i
  locations : c'.facts.locations = c.facts.locations

theorem copySlot_of_error {n : Nat} {i : SlotId} {d : Draft} {f : Fault}
    (h : Copying.slot i d = .error f d) : c.copySlot n i d = .error f d := by
  cases n with
  | zero => exact Copying.bind_of_error h
  | succ n => exact Copying.bind_of_error h

theorem copySlot_zero {i : SlotId} {d : Draft} {s : Slot} (h : Copying.slot i d = .ok s d) :
    c.copySlot 0 i d = .error (.error (.limitExceeded s.node c.config.recursionLimit)) d :=
  Copying.bind_of_ok h

namespace UpholdsCopies

theorem target (h : UpholdsCopies P c c') (v : TypeVar) (d : Draft) :
    RunPersists P (Copying.target c v d) (Copying.target c' v d) := by
  unfold Copying.target
  cases d.bindings.lookup v.node with
  | some i => exact .refl _
  | none =>
    rcases h.typeOf v.node with heq | ⟨f, hf, heq⟩
    · rw [heq]
      exact .refl _
    · rw [heq]
      exact .of_fault hf d _

theorem copyChild (h : UpholdsCopies P c c') {copy copy' : SlotId → Copying SlotId}
    (hcopy : ∀ i d, RunPersists P (copy i d) (copy' i d)) (v : TypeVar) (d : Draft) :
    RunPersists P (c.copyChild copy v d) (c'.copyChild copy' v d) := by
  refine RunPersists.bind (h.target v d) fun i d' _ => ?_
  rw [h.builtin]
  split
  · exact .refl _
  · exact RunPersists.bind (hcopy i d') fun j d'' _ => .refl _

theorem copyChildren (h : UpholdsCopies P c c') {copy copy' : SlotId → Copying SlotId}
    (hcopy : ∀ i d, RunPersists P (copy i d) (copy' i d)) (vars : List TypeVar) (d : Draft) :
    RunPersists P (c.copyChildren copy vars d) (c'.copyChildren copy' vars d) := by
  induction vars generalizing d with
  | nil => exact .refl _
  | cons v rest ih =>
    refine RunPersists.bind (h.copyChild hcopy v d) fun w d' _ => ?_
    exact RunPersists.bind (ih d') fun ws d'' _ => .refl _

/-- Copies that find the slot to copy, one level of the recursion. -/
private theorem copySlot_of_ok (h : UpholdsCopies P c c') {n m : Nat} {i : SlotId} {d : Draft}
    {s : Slot} (hslot : Copying.slot i d = .ok s d)
    (hcopy : ∀ i d, RunPersists P (c.copySlot n i d) (c'.copySlot m i d)) :
    RunPersists P (c.copySlot (n + 1) i d) (c'.copySlot (m + 1) i d) := by
  cases hinfer : s.isInfer with
  | true =>
    obtain ⟨state, location, hshape⟩ := Slot.isInfer_iff.mp hinfer
    rw [copySlot_of_infer hslot hshape, copySlot_of_infer hslot hshape]
    unfold Copying.renameInfer
    rw [h.locations]
    exact .refl _
  | false =>
    rw [copySlot_of_composite hslot hinfer, copySlot_of_composite hslot hinfer]
    exact RunPersists.bind (h.copyChildren hcopy _ d) fun vars d' _ => .refl _

theorem copySlot (h : UpholdsCopies P c c') {n m : Nat} (hnm : Deepens P c c' n m) (i : SlotId)
    (d : Draft) : RunPersists P (c.copySlot n i d) (c'.copySlot m i d) := by
  induction n generalizing m i d with
  | zero =>
    cases hslot : Copying.slot i d with
    | error f d₁ =>
      obtain rfl := Copying.slot_eq_error hslot
      rw [copySlot_of_error hslot, copySlot_of_error hslot]
      exact .refl _
    | ok s d₁ =>
      obtain ⟨rfl, -⟩ := Copying.slot_eq_ok (c := c) hslot
      rw [copySlot_zero hslot]
      cases hnm with
      | same limit =>
        rw [copySlot_zero hslot, limit]
        exact .refl _
      | more passes le => exact .of_fault (passes _ _) d₁ _
  | succ n ih =>
    obtain ⟨k, rfl, hnk⟩ := hnm.pred
    cases hslot : Copying.slot i d with
    | error f d₁ =>
      obtain rfl := Copying.slot_eq_error hslot
      rw [copySlot_of_error hslot, copySlot_of_error hslot]
      exact .refl _
    | ok s d₁ =>
      obtain ⟨rfl, -⟩ := Copying.slot_eq_ok (c := c) hslot
      exact h.copySlot_of_ok hslot (ih hnk)

end UpholdsCopies

/-- The answer of a whole copy stays if its run does. -/
theorem persists_finish {α : Type} {x y : Copying α}
    (h : RunPersists P (x (.start c)) (y (.start c'))) :
    Persists P (c.finish x).1 (c'.finish y).1 := by
  unfold finish EStateM.run
  rcases h with heq | ⟨f, d, hf, heq⟩
  · rw [heq]
    cases x (.start c) <;> exact .refl _
  · rw [heq]
    exact .of_fault hf _

end Context

end TypeStore
