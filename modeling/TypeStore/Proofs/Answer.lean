import TypeStore.Error

/-!
# Answers and faults

A computation over a store answers or ends in a fault. Two notions say what later modules need of
such computations, and each goes along a computation by one rule for sequencing.

* `Yields P Q x` is about one run: an answer satisfies `Q` and a fault satisfies `P`.
* `Persists P x y` is about two runs: the second ends as the first did, unless the first ended in
  a fault that `P` allows to pass.

Drafts and buffers are computations with a state. `RunYields` and `RunPersists` are the same two
notions for what such a computation leaves.
-/

namespace TypeStore

variable {α β σ : Type} {P : Fault → Prop}

/-! ## One run -/

/-- A sequence that answers is made of two computations that answer. -/
theorem exists_of_bind_eq_ok {x : Except Fault α} {f : α → Except Fault β} {b : β}
    (h : x >>= f = .ok b) : ∃ a, x = .ok a ∧ f a = .ok b := by
  cases x with
  | ok a => exact ⟨a, rfl, h⟩
  | error e => cases h

/-- An answer satisfies `Q`, a fault satisfies `P`. -/
def Yields (P : Fault → Prop) (Q : α → Prop) : Except Fault α → Prop
  | .ok a => Q a
  | .error f => P f

namespace Yields

variable {Q : α → Prop} {R : β → Prop}

theorem bind {x : Except Fault α} {f : α → Except Fault β} (hx : Yields P Q x)
    (hf : ∀ a, Q a → Yields P R (f a)) : Yields P R (x >>= f) := by
  cases x with
  | ok a => exact hf a hx
  | error e => exact hx

theorem imp {x : Except Fault α} {P' : Fault → Prop} {Q' : α → Prop} (h : Yields P Q x)
    (hP : ∀ f, P f → P' f) (hQ : ∀ a, Q a → Q' a) : Yields P' Q' x := by
  cases x with
  | ok a => exact hQ a h
  | error f => exact hP f h

theorem map {x : Except Fault α} {g : α → β} (h : Yields P Q x) (hg : ∀ a, Q a → R (g a)) :
    Yields P R (x.map g) := by
  cases x with
  | ok a => exact hg a h
  | error f => exact h

/-- Nothing is asked of an answer or a fault. -/
theorem trivial (x : Except Fault α) : Yields (fun _ => True) (fun _ => True) x := by
  cases x with
  | ok a => exact True.intro
  | error f => exact True.intro

end Yields

/-- What a computation with a state leaves: an answer and a state that satisfy `Q`, or a fault
that satisfies `P`. -/
def RunYields (P : Fault → Prop) (Q : α → σ → Prop) : EStateM.Result Fault σ α → Prop
  | .ok a s => Q a s
  | .error f _ => P f

theorem RunYields.imp {r : EStateM.Result Fault σ α} {Q Q' : α → σ → Prop} (h : RunYields P Q r)
    (hQ : ∀ a s, Q a s → Q' a s) : RunYields P Q' r := by
  cases r with
  | ok a s => exact hQ a s h
  | error f s => exact h

theorem RunYields.bind {x : EStateM Fault σ α} {f : α → EStateM Fault σ β} {s : σ}
    {Q : α → σ → Prop} {R : β → σ → Prop} (hx : RunYields P Q (x s))
    (hf : ∀ a s', Q a s' → RunYields P R (f a s')) : RunYields P R ((x >>= f) s) := by
  show RunYields P R (EStateM.bind x f s)
  unfold EStateM.bind
  cases hrun : x s with
  | ok a s' =>
    rw [hrun] at hx
    exact hf a s' hx
  | error e s' =>
    rw [hrun] at hx
    exact hx

/-! ## Two runs -/

/-- The second run ends as the first, unless that ended in a fault that may pass. -/
def Persists (P : Fault → Prop) (x y : Except Fault α) : Prop :=
  y = x ∨ ∃ f, P f ∧ x = .error f

namespace Persists

theorem refl (x : Except Fault α) : Persists P x x := .inl rfl

theorem of_fault {f : Fault} (h : P f) (y : Except Fault α) : Persists P (.error f) y :=
  .inr ⟨f, h, rfl⟩

theorem bind {x y : Except Fault α} {f g : α → Except Fault β} (h : Persists P x y)
    (hfg : ∀ a, x = .ok a → Persists P (f a) (g a)) : Persists P (x >>= f) (y >>= g) := by
  rcases h with rfl | ⟨e, he, rfl⟩
  · cases y with
    | ok a => exact hfg a rfl
    | error e => exact .refl _
  · exact .of_fault he _

theorem ite {p : Prop} [Decidable p] {x y x' y' : Except Fault α} (hp : p → Persists P x y)
    (hn : ¬ p → Persists P x' y') :
    Persists P (if p then x else x') (if p then y else y') := by
  split
  · exact hp ‹_›
  · exact hn ‹_›

theorem map {x y : Except Fault α} (h : Persists P x y) (g : α → β) :
    Persists P (x.map g) (y.map g) := by
  rcases h with rfl | ⟨e, he, rfl⟩
  · exact .refl _
  · exact .of_fault he _

/-- Answers stay, whatever faults may pass. -/
theorem ok {x y : Except Fault α} (h : Persists P x y) {a : α} (ha : x = .ok a) : y = .ok a := by
  rcases h with rfl | ⟨e, -, rfl⟩
  · exact ha
  · cases ha

/-- So does every fault that may not pass. -/
theorem eq {x y : Except Fault α} (h : Persists P x y) (hx : ∀ f, x = .error f → ¬ P f) :
    y = x := by
  rcases h with rfl | ⟨e, he, rfl⟩
  · rfl
  · exact absurd he (hx e rfl)

end Persists

/-- The same for what a computation with a state leaves. -/
def RunPersists (P : Fault → Prop) (r r' : EStateM.Result Fault σ α) : Prop :=
  r' = r ∨ ∃ f s, P f ∧ r = .error f s

namespace RunPersists

theorem refl (r : EStateM.Result Fault σ α) : RunPersists P r r := .inl rfl

theorem of_fault {f : Fault} (h : P f) (s : σ) (r : EStateM.Result Fault σ α) :
    RunPersists P (.error f s) r :=
  .inr ⟨f, s, h, rfl⟩

theorem bind {x y : EStateM Fault σ α} {f g : α → EStateM Fault σ β} {s : σ}
    (h : RunPersists P (x s) (y s))
    (hfg : ∀ a s', x s = .ok a s' → RunPersists P (f a s') (g a s')) :
    RunPersists P ((x >>= f) s) ((y >>= g) s) := by
  show RunPersists P (EStateM.bind x f s) (EStateM.bind y g s)
  unfold EStateM.bind
  rcases h with heq | ⟨e, s', he, heq⟩
  · rw [heq]
    cases hrun : x s with
    | ok a s' => exact hfg a s' hrun
    | error e s' => exact .refl _
  · rw [heq]
    exact .of_fault he s' _

end RunPersists

end TypeStore
