import TypeStore.Proofs.Persistence
import TypeStore.Proofs.Session

/-!
# Higher limits

The recursion limit bounds the steps of a resolution and the levels that a copy or a check for
concreteness goes down. It decides only whether there is an answer: what is answered under one
limit is answered under every higher one, and the other way round a higher limit only adds answers
where the lower one was exceeded.

Resolution counts steps rather than levels. A walk with a larger budget makes the same steps and
has as much more left at the end.
-/

namespace TypeStore

/-! ## Larger budgets -/

/-- The second run comes to the answer of the first, moved by `g`, unless the first one's budget
was spent. -/
def Outlasts {α : Type} (spent : α) (g : α → α) (x y : Except Fault α) : Prop :=
  x = .ok spent ∨ y = x.map g

namespace Outlasts

variable {α β : Type} {spent : α} {g : α → α}

/-- Two runs that begin alike. -/
theorem bind (z : Except Fault β) {f f' : β → Except Fault α}
    (h : ∀ b, Outlasts spent g (f b) (f' b)) : Outlasts spent g (z >>= f) (z >>= f') := by
  cases z with
  | ok b => exact h b
  | error e => exact .inr rfl

theorem ite {p : Prop} [Decidable p] {x y x' y' : Except Fault α} (hp : Outlasts spent g x y)
    (hn : Outlasts spent g x' y') :
    Outlasts spent g (if p then x else x') (if p then y else y') := by
  split
  · exact hp
  · exact hn

theorem ok {x y : Except Fault α} {a : α} (h : Outlasts spent g x y) (ha : x = .ok a)
    (hlasts : a ≠ spent) : y = .ok (g a) := by
  rcases h with hspent | hrun
  · rw [ha] at hspent
    exact absurd (Except.ok.inj hspent) hlasts
  · rw [hrun, ha]
    rfl

end Outlasts

/-- Moves a trail by steps that were left over. -/
def Trail.plus (k : Nat) : Trail → Trail
  | .onward i rest => .onward i (rest + k)
  | trail => trail

namespace Context

theorem followBindings_add (c : Context) (k budget : Nat) (i : SlotId) :
    Outlasts none (Option.map fun r => (r.1, r.2 + k)) (c.followBindings budget i)
      (c.followBindings (budget + k) i) := by
  induction budget generalizing i with
  | zero =>
    unfold followBindings
    refine .bind _ fun s => .ite (.inl rfl) (.ite ?_ (.inr rfl))
    exact .bind _ fun j => .inr rfl
  | succ budget ih =>
    rw [Nat.add_right_comm budget 1 k]
    unfold followBindings
    refine .bind _ fun s => .ite ?_ (.ite ?_ ?_)
    · exact .bind _ fun next => .ite (.inr rfl) (ih next)
    · refine .bind _ fun j => .inr ?_
      rw [Nat.add_right_comm budget k 1]
      rfl
    · rw [Nat.add_right_comm budget k 1]
      exact .inr rfl

theorem followParameter_add (c : Context) (k budget : Nat) (i : SlotId) :
    Outlasts none (Option.map fun r => (r.1, r.2 + k)) (c.followParameter budget i)
      (c.followParameter (budget + k) i) := by
  unfold followParameter
  refine .bind _ fun s => .ite ?_ (.inr rfl)
  exact .bind _ fun j => c.followBindings_add k budget j

theorem stage_add (c : Context) (k budget : Nat) (i : SlotId) (s : Slot) :
    Outlasts .exhausted (Trail.plus k) (c.stage budget i s) (c.stage (budget + k) i s) := by
  unfold stage
  split
  · rcases c.followParameter_add k budget i with hspent | hrun
    · rw [hspent]
      exact .inl rfl
    · rw [hrun]
      cases c.followParameter budget i with
      | error f => exact .inr rfl
      | ok r =>
        cases r with
        | none => exact .inl rfl
        | some r => exact .ite (.inr rfl) (.inr rfl)
  · split
    · exact .inr rfl
    · exact .bind _ fun j => .inr rfl
  · exact .bind _ fun j => .inr rfl
  · exact .inr rfl

theorem walk_add (c : Context) (k rounds budget : Nat) (i : SlotId) :
    Outlasts none id (c.walk rounds budget i) (c.walk (rounds + k) (budget + k) i) := by
  induction rounds generalizing budget i with
  | zero =>
    unfold walk
    exact .bind _ fun s => .ite (.inl rfl) (.inr rfl)
  | succ rounds ih =>
    rw [Nat.add_right_comm rounds 1 k]
    unfold walk
    refine .bind _ fun s => .ite ?_ (.inr rfl)
    cases budget with
    | zero => exact .inl rfl
    | succ budget =>
      rw [Nat.add_right_comm budget 1 k]
      dsimp only
      rcases c.stage_add k budget i s with hspent | hrun
      · rw [hspent]
        exact .inl rfl
      · rw [hrun]
        cases c.stage budget i s with
        | error f => exact .inr rfl
        | ok trail =>
          cases trail with
          | settled j => exact .inr rfl
          | onward j rest => exact ih rest j
          | exhausted => exact .inl rfl

/-! ## Higher limits -/

/-- The store with another recursion limit. -/
def withLimit (c : Context) (limit : Nat) : Context :=
  { c with config := { c.config with recursionLimit := limit } }

/-- The faults of going beyond the limit. -/
def IsLimitFault (f : Fault) : Prop := ∃ n l, f = .error (.limitExceeded n l)

/-- A run was ended by the limit. -/
def HitsLimit {α : Type} (x : Except Fault α) : Prop :=
  ∃ n l, x = .error (.error (.limitExceeded n l))

variable {c : Context} {limit : Nat}

theorem upholdsCopies_withLimit (P : Fault → Prop) (c : Context) (limit : Nat) :
    UpholdsCopies P c (c.withLimit limit) where
  slot _ := .refl _
  typeOf _ := .refl _
  associated _ := rfl
  builtin _ := rfl
  locations := rfl

theorem deepens_withLimit {n m : Nat} (h : n ≤ m) :
    Deepens IsLimitFault c (c.withLimit limit) n m :=
  .more (fun k l => ⟨k, l, rfl⟩) h

/-- A run that the limit did not end is the same under a higher one. -/
theorem eq_of_persists {α : Type} {x y : Except Fault α} (h : Persists IsLimitFault x y)
    (hx : ¬ HitsLimit x) : y = x := by
  apply h.eq
  rintro f rfl ⟨n, l, rfl⟩
  exact hx ⟨n, l, rfl⟩

theorem walk_withLimit (rounds budget : Nat) (i : SlotId) :
    (c.withLimit limit).walk rounds budget i = c.walk rounds budget i :=
  ((upholdsCopies_withLimit (fun _ => False) c limit).walk rounds budget i).eq fun _ _ h => h

theorem followParameter_withLimit (budget : Nat) (i : SlotId) :
    (c.withLimit limit).followParameter budget i = c.followParameter budget i :=
  ((upholdsCopies_withLimit (fun _ => False) c limit).followParameter budget i).eq fun _ _ h => h

theorem walkFrom_withLimit (hlimit : c.config.recursionLimit ≤ limit) {i : SlotId}
    (h : c.walkFrom i ≠ .ok none) : (c.withLimit limit).walkFrom i = c.walkFrom i := by
  obtain ⟨k, rfl⟩ := Nat.exists_eq_add_of_le hlimit
  unfold walkFrom at h ⊢
  rw [walk_withLimit]
  rcases c.walk_add k c.config.recursionLimit c.config.recursionLimit i with hspent | hrun
  · exact absurd hspent h
  · exact hrun.trans (by cases c.walk _ _ i <;> rfl)

/-- A run that began at a slot, and so has found it, is told of the limit. -/
theorem hitsLimit_limitFault {α β : Type} {i : SlotId} {g : Slot → Except Fault β} {b : β}
    (h : c.slot i >>= g = .ok b) : HitsLimit (.error (c.limitFault i) : Except Fault α) := by
  cases hslot : c.slot i with
  | ok s =>
    rw [limitFault, hslot]
    exact ⟨s.node, c.config.recursionLimit, rfl⟩
  | error f =>
    rw [hslot] at h
    cases h

theorem terminal_of_spent {i : SlotId} (h : c.walkFrom i = .ok none) :
    HitsLimit (c.terminal i) := by
  rw [terminal, h]
  unfold walkFrom walk at h
  exact hitsLimit_limitFault h

theorem terminal_withLimit (hlimit : c.config.recursionLimit ≤ limit) {i : SlotId}
    (h : ¬ HitsLimit (c.terminal i)) : (c.withLimit limit).terminal i = c.terminal i := by
  have hwalk : c.walkFrom i ≠ .ok none := fun hspent => h (terminal_of_spent hspent)
  rw [terminal, walkFrom_withLimit hlimit hwalk, terminal]
  cases hrun : c.walkFrom i with
  | error f => rfl
  | ok r =>
    cases r with
    | some j => rfl
    | none => exact absurd hrun hwalk

theorem parameterTarget_of_spent {i : SlotId}
    (h : c.followParameter c.config.recursionLimit i = .ok none) :
    HitsLimit (c.parameterTarget i) := by
  rw [parameterTarget, h]
  exact hitsLimit_limitFault h

theorem parameterTarget_withLimit (hlimit : c.config.recursionLimit ≤ limit) {i : SlotId}
    (h : ¬ HitsLimit (c.parameterTarget i)) :
    (c.withLimit limit).parameterTarget i = c.parameterTarget i := by
  obtain ⟨k, rfl⟩ := Nat.exists_eq_add_of_le hlimit
  have hfollow := c.followParameter_add k c.config.recursionLimit i
  rw [parameterTarget, followParameter_withLimit, parameterTarget]
  rcases hfollow with hspent | hrun
  · exact absurd (parameterTarget_of_spent hspent) h
  · show (c.followParameter (c.config.recursionLimit + k) i >>= _) = _
    rw [hrun]
    cases hfirst : c.followParameter c.config.recursionLimit i with
    | error f => rfl
    | ok r =>
      cases r with
      | some r => rfl
      | none => exact absurd (parameterTarget_of_spent hfirst) h

theorem concrete_withLimit (hlimit : c.config.recursionLimit ≤ limit) {i : SlotId}
    (h : ¬ HitsLimit (c.concrete i)) : (c.withLimit limit).concrete i = c.concrete i :=
  eq_of_persists ((upholdsCopies_withLimit _ c limit).concreteWithin
    (deepens_withLimit (Nat.succ_le_succ hlimit)) [] i) h

theorem finish_withLimit {α : Type} {x y : Copying α}
    (hxy : RunPersists IsLimitFault (x (.start c)) (y (.start c)))
    (h : ¬ HitsLimit (c.finish x).1) :
    (c.withLimit limit).finish y = ((c.finish x).1, (c.finish x).2.withLimit limit) := by
  have hstart : Draft.start (c.withLimit limit) = .start c := rfl
  unfold finish EStateM.run at h ⊢
  rw [hstart]
  rcases hxy with heq | ⟨f, d, ⟨n, l, rfl⟩, heq⟩
  · rw [heq]
    cases x (.start c) <;> rfl
  · rw [heq] at h
    exact absurd ⟨n, l, rfl⟩ h

theorem copy_withLimit (hlimit : c.config.recursionLimit ≤ limit) {i : SlotId}
    (h : ¬ HitsLimit (c.copy i).1) :
    (c.withLimit limit).copy i = ((c.copy i).1, (c.copy i).2.withLimit limit) :=
  finish_withLimit ((upholdsCopies_withLimit _ c limit).copySlot
    (deepens_withLimit (Nat.succ_le_succ hlimit)) i _) h

theorem copyVar_withLimit (hlimit : c.config.recursionLimit ≤ limit) {v : TypeVar}
    (h : ¬ HitsLimit (c.copyVar v).1) :
    (c.withLimit limit).copyVar v = ((c.copyVar v).1, (c.copyVar v).2.withLimit limit) := by
  have hup := upholdsCopies_withLimit IsLimitFault c limit
  exact finish_withLimit (hup.copyChild (hup.copySlot (deepens_withLimit hlimit)) v _) h

theorem resolve_withLimit (hlimit : c.config.recursionLimit ≤ limit) {i : SlotId}
    (h : c.walkFrom i ≠ .ok none) :
    (c.resolve i).2 = c ∧
      (c.withLimit limit).resolve i = ((c.resolve i).1, c.withLimit limit) := by
  unfold resolve
  rw [walkFrom_withLimit hlimit h]
  cases hrun : c.walkFrom i with
  | error f => exact ⟨rfl, rfl⟩
  | ok r =>
    cases r with
    | some j => exact ⟨rfl, rfl⟩
    | none => exact absurd hrun h

/-- A higher limit changes no answer that the lower one allowed, be it a result or a fault, nor
what a copy leaves in the store. A resolution that did not spend its budget comes to the same end
under the higher limit and changes nothing. -/
theorem higher_limit_keeps_answers (c : Context) (limit : Nat)
    (hlimit : c.config.recursionLimit ≤ limit) (i : SlotId) (v : TypeVar) :
    (¬ HitsLimit (c.terminal i) → (c.withLimit limit).terminal i = c.terminal i) ∧
      (¬ HitsLimit (c.parameterTarget i) →
        (c.withLimit limit).parameterTarget i = c.parameterTarget i) ∧
      (¬ HitsLimit (c.concrete i) → (c.withLimit limit).concrete i = c.concrete i) ∧
      (¬ HitsLimit (c.copy i).1 →
        (c.withLimit limit).copy i = ((c.copy i).1, (c.copy i).2.withLimit limit)) ∧
      (¬ HitsLimit (c.copyVar v).1 →
        (c.withLimit limit).copyVar v = ((c.copyVar v).1, (c.copyVar v).2.withLimit limit)) ∧
      (c.walkFrom i ≠ .ok none →
        (c.resolve i).2 = c ∧
          (c.withLimit limit).resolve i = ((c.resolve i).1, c.withLimit limit)) :=
  ⟨terminal_withLimit hlimit, parameterTarget_withLimit hlimit, concrete_withLimit hlimit,
    copy_withLimit hlimit, copyVar_withLimit hlimit, resolve_withLimit hlimit⟩

/-- Two levels are just enough for copying a tuple in a tuple, so a third one changes nothing. -/
theorem nestedTuples_copy_higher_limit :
    HitsLimit ((nestedTuples.withLimit 1).copy ⟨21⟩).1 ∧
      ¬ HitsLimit ((nestedTuples.withLimit 2).copy ⟨21⟩).1 ∧
      (((nestedTuples.withLimit 2).withLimit 3).copy ⟨21⟩).1 = .ok ⟨24⟩ := by
  have hanswer : ((nestedTuples.withLimit 2).copy ⟨21⟩).1 = .ok ⟨24⟩ := by decide +kernel
  have hends : ¬ HitsLimit ((nestedTuples.withLimit 2).copy ⟨21⟩).1 := by
    rw [hanswer]
    rintro ⟨n, l, h⟩
    cases h
  obtain ⟨-, -, -, hcopy, -⟩ :=
    higher_limit_keeps_answers (nestedTuples.withLimit 2) 3 (by decide) ⟨21⟩ ⟨⟨46⟩⟩
  exact ⟨⟨⟨45⟩, 1, by decide +kernel⟩, hends, by rw [hcopy hends]; exact hanswer⟩

end Context

end TypeStore
