import Mathlib.Algebra.Group.Nat.Defs
import Mathlib.Logic.Relation
import TypeStore.Context.Copy

/-!
# Steps of a copy

A draft, committed to the context it was started in, is again a context, and every step of a copy
changes that context in one of three ways. `CopyStep` lists them. Whatever a copy does, and also
when it fails half way, it goes from the draft it is given to the one it leaves by such steps, so
what one step keeps is kept by every copy.

The locations noted along the way play no part in this and are left open.
-/

namespace TypeStore

/-! ## Drafts as contexts -/

namespace Draft

variable (d : Draft) (c : Context)

@[simp]
theorem slot?_commit (i : SlotId) : (d.commit c).slot? i = d.arena[i.index]? := rfl

/-- The latest note on a node decides, and the table where there is none. -/
theorem typeOf?_commit (n : NodeId) :
    (d.commit c).typeOf? n = (d.bindings.lookup n).or (c.typeOf? n) := by
  obtain ⟨arena, supply, bindings, locations⟩ := d
  induction bindings with
  | nil => rfl
  | cons note rest ih =>
    obtain ⟨k, i⟩ := note
    -- the latest note is written last
    have hstep : (commit ⟨arena, supply, (k, i) :: rest, locations⟩ c).typeOf? n
        = ((commit ⟨arena, supply, rest, locations⟩ c).bindType k i).typeOf? n := rfl
    rw [hstep, Context.typeOf?_bindType, ih]
    by_cases hk : k = n
    · subst hk
      simp
    · have hne : (n == k) = false := beq_false_of_ne (Ne.symm hk)
      simp only [if_neg hk, List.lookup_cons, hne]

end Draft

namespace Context

/-- As long as ids last, the next id is the position behind the last slot. -/
theorem index_nextSlot {c : Context} (h : c.size < 2 ^ 32) : (nextSlot c.arena).index = c.size :=
  Nat.min_eq_left (Nat.le_of_lt_succ h)

/-- As long as ids last, a new slot is found under the id it was given. -/
theorem slot?_allocate_nextSlot {c : Context} (h : c.size < 2 ^ 32) (s : Slot) :
    (c.allocate s).2.slot? (nextSlot c.arena) = some s := by
  rw [slot?_allocate, if_pos (index_nextSlot h)]

/-- The context with other recorded locations. -/
def withLocations (c : Context) (locations : NodeMap Location) : Context :=
  { c with facts := { c.facts with locations } }

/-- The context after an inference variable was copied under a fresh node. -/
def renamed (c : Context) (s : Slot) (state : Inference.State) (location : Location)
    (locations : NodeMap Location) : Context :=
  (c.fresh.2.register (s.renamedInfer c.supply.next state location)).2.withLocations locations

/-- One change that a copy makes. -/
inductive CopyStep : Context → Context → Prop
  /-- A slot other than an inference variable gets a copy, whose children all have a type. -/
  | push {c : Context} {i : SlotId} {s : Slot} {vars : List TypeVar}
      (slot : c.slot? i = some s) (composite : s.isInfer = false)
      (typed : ∀ w ∈ vars, ∃ k, c.typeOf? w.node = some k) :
      CopyStep c (c.allocate (s.withOwned vars)).2
  /-- A slot becomes the type of its node. -/
  | adopt {c : Context} {j : SlotId} {s : Slot} (slot : c.slot? j = some s) :
      CopyStep c (c.bindType s.node j)
  /-- An inference variable gets a copy under a fresh node. -/
  | rename {c : Context} {i : SlotId} {s : Slot} {state : Inference.State} {location : Location}
      {locations : NodeMap Location} (slot : c.slot? i = some s)
      (infer : s.shape = .infer state location) :
      CopyStep c (c.renamed s state location locations)

/-- Any number of steps. -/
abbrev CopySteps : Context → Context → Prop := Relation.ReflTransGen CopyStep

theorem typeOf?_renamed (c : Context) (s : Slot) (state : Inference.State) (location : Location)
    (locations : NodeMap Location) (n : NodeId) :
    (c.renamed s state location locations).typeOf? n
      = if c.supply.next = n then some (nextSlot c.arena) else c.typeOf? n :=
  typeOf?_bindType _ _ _ _

theorem slot?_renamed (c : Context) (s : Slot) (state : Inference.State) (location : Location)
    (locations : NodeMap Location) (i : SlotId) :
    (c.renamed s state location locations).slot? i
      = if i.index = c.size then some (s.renamedInfer c.supply.next state location)
        else c.slot? i :=
  slot?_allocate c _ i

@[simp]
theorem size_renamed (c : Context) (s : Slot) (state : Inference.State) (location : Location)
    (locations : NodeMap Location) :
    (c.renamed s state location locations).size = c.size + 1 :=
  size_allocate c _

@[simp]
theorem next_renamed (c : Context) (s : Slot) (state : Inference.State) (location : Location)
    (locations : NodeMap Location) :
    (c.renamed s state location locations).supply.next.raw = c.supply.next.raw + 1 := rfl

/-! ## What steps keep -/

/-- Slots are neither changed nor lost. -/
theorem CopyStep.slot? {c c' : Context} (h : CopyStep c c') {i : SlotId} {s : Slot}
    (hs : c.slot? i = some s) : c'.slot? i = some s := by
  cases h with
  | push slot composite typed => exact slot?_allocate_of_some hs
  | adopt slot => exact hs
  | rename slot infer => exact slot?_allocate_of_some (c := c.fresh.2) hs

/-- A node that has a type goes on having one. -/
theorem CopyStep.typed {c c' : Context} (h : CopyStep c c') {n : NodeId}
    (hn : ∃ i, c.typeOf? n = some i) : ∃ i, c'.typeOf? n = some i := by
  obtain ⟨i, hi⟩ := hn
  cases h with
  | push slot composite typed => exact ⟨i, hi⟩
  | adopt slot =>
    rw [typeOf?_bindType]
    split
    · exact ⟨_, rfl⟩
    · exact ⟨i, hi⟩
  | rename slot infer =>
    rw [typeOf?_renamed]
    split
    · exact ⟨_, rfl⟩
    · exact ⟨i, hi⟩

theorem CopySteps.slot? {c c' : Context} (h : CopySteps c c') {i : SlotId} {s : Slot}
    (hs : c.slot? i = some s) : c'.slot? i = some s := by
  induction h with
  | refl => exact hs
  | tail _ step ih => exact step.slot? ih

theorem CopySteps.slot?_of_lt {c c' : Context} (h : CopySteps c c') {i : SlotId} {s : Slot}
    (hi : i.index < c.size) (hs : c'.slot? i = some s) : c.slot? i = some s := by
  obtain ⟨t, ht⟩ := exists_slot?_of_index_lt hi
  rw [CopySteps.slot? h ht] at hs
  exact hs ▸ ht

theorem CopySteps.typed {c c' : Context} (h : CopySteps c c') {n : NodeId}
    (hn : ∃ i, c.typeOf? n = some i) : ∃ i, c'.typeOf? n = some i := by
  induction h with
  | refl => exact hn
  | tail _ step ih => exact step.typed ih

/-- Neither the configuration nor the list of builtin types is touched. -/
theorem CopySteps.frame {c c' : Context} (h : CopySteps c c') :
    c'.config = c.config ∧ c'.builtins = c.builtins := by
  induction h with
  | refl => exact ⟨rfl, rfl⟩
  | tail _ step ih =>
    cases step with
    | push slot composite typed => exact ih
    | adopt slot => exact ih
    | rename slot infer => exact ih

theorem CopySteps.isBuiltin_eq {c c' : Context} (h : CopySteps c c') (i : SlotId) :
    c'.isBuiltin i = c.isBuiltin i := by
  rw [isBuiltin, h.frame.2]
  rfl

theorem CopySteps.size_le {c c' : Context} (h : CopySteps c c') : c.size ≤ c'.size := by
  induction h with
  | refl => exact Nat.le_refl _
  | tail _ step ih =>
    cases step with
    | push slot composite typed => rw [size_allocate]; omega
    | adopt slot => exact ih
    | rename slot infer => rw [size_renamed]; omega

theorem CopyStep.size_pos {c c' : Context} (h : CopyStep c c') : 0 < c.size := by
  cases h with
  | push slot composite typed => exact Nat.zero_lt_of_lt (index_lt_of_slot? slot)
  | adopt slot => exact Nat.zero_lt_of_lt (index_lt_of_slot? slot)
  | rename slot infer => exact Nat.zero_lt_of_lt (index_lt_of_slot? slot)

/-- There is nothing to copy in an empty store. -/
theorem CopySteps.size_pos {c c' : Context} (h : CopySteps c c') (hpos : 0 < c'.size) :
    0 < c.size := by
  induction h with
  | refl => exact hpos
  | tail _ step ih => exact ih step.size_pos

end Context

/-! ## Copies go by steps -/

namespace Copying

variable {α β : Type} {c : Context}

/-- The draft that a computation leaves, whether it succeeds or fails. -/
def after (x : Copying α) (d : Draft) : Draft :=
  match x d with
  | .ok _ d' => d'
  | .error _ d' => d'

theorem after_of_ok {x : Copying α} {d d' : Draft} {a : α} (h : x d = .ok a d') :
    x.after d = d' := by
  rw [after, h]

theorem after_of_error {x : Copying α} {d d' : Draft} {f : Fault} (h : x d = .error f d') :
    x.after d = d' := by
  rw [after, h]

theorem bind_of_ok {x : Copying α} {f : α → Copying β} {d d₁ : Draft} {a : α}
    (h : x d = .ok a d₁) : (x >>= f) d = f a d₁ := by
  show EStateM.bind x f d = f a d₁
  rw [EStateM.bind, h]

theorem bind_of_error {x : Copying α} {f : α → Copying β} {d d₁ : Draft} {e : Fault}
    (h : x d = .error e d₁) : (x >>= f) d = .error e d₁ := by
  show EStateM.bind x f d = .error e d₁
  rw [EStateM.bind, h]

theorem bind_eq_ok {x : Copying α} {f : α → Copying β} {d d' : Draft} {b : β}
    (h : (x >>= f) d = .ok b d') : ∃ a d₁, x d = .ok a d₁ ∧ f a d₁ = .ok b d' := by
  cases hx : x d with
  | ok a d₁ => exact ⟨a, d₁, rfl, (bind_of_ok hx).symm.trans h⟩
  | error e d₁ =>
    rw [bind_of_error hx] at h
    cases h

/-- Steps of one computation and steps of what follows if it succeeds are steps of both. -/
theorem steps_bind {x : Copying α} {f : α → Copying β} {d : Draft}
    (hx : Context.CopySteps (d.commit c) ((x.after d).commit c))
    (hf : ∀ a d₁, x d = .ok a d₁ →
      Context.CopySteps (d₁.commit c) (((f a).after d₁).commit c)) :
    Context.CopySteps (d.commit c) (((x >>= f).after d).commit c) := by
  cases hrun : x d with
  | ok a d₁ =>
    have hafter : (x >>= f).after d = (f a).after d₁ := by
      rw [after, bind_of_ok hrun, after]
    rw [after_of_ok hrun] at hx
    rw [hafter]
    exact hx.trans (hf a d₁ hrun)
  | error e d₁ =>
    rw [after_of_error hrun] at hx
    rw [after_of_error (bind_of_error hrun)]
    exact hx

theorem slot_eq_ok {i : SlotId} {d d' : Draft} {s : Slot} (h : slot i d = .ok s d') :
    d' = d ∧ (d.commit c).slot? i = some s := by
  rw [Draft.slot?_commit]
  unfold slot at h
  split at h
  · cases h
    exact ⟨rfl, ‹_›⟩
  · cases h

theorem slot_of_slot? {i : SlotId} {d : Draft} {s : Slot} (h : (d.commit c).slot? i = some s) :
    slot i d = .ok s d := by
  rw [Draft.slot?_commit] at h
  rw [slot, h]

@[simp]
theorem after_slot (i : SlotId) (d : Draft) : (slot i).after d = d := by
  unfold after slot
  split <;> split at * <;> simp_all

theorem target_eq_ok {v : TypeVar} {d d' : Draft} {i : SlotId} (h : target c v d = .ok i d') :
    d' = d ∧ (d.commit c).typeOf? v.node = some i := by
  rw [Draft.typeOf?_commit]
  unfold target Context.typeOf at h
  cases hnote : d.bindings.lookup v.node with
  | some j =>
    rw [hnote] at h
    cases h
    exact ⟨rfl, rfl⟩
  | none =>
    rw [hnote] at h
    cases htable : c.typeOf? v.node with
    | some j =>
      rw [htable] at h
      cases h
      exact ⟨rfl, rfl⟩
    | none =>
      rw [htable] at h
      cases h

@[simp]
theorem after_target (v : TypeVar) (d : Draft) : (target c v).after d = d := by
  unfold after target Context.typeOf
  cases d.bindings.lookup v.node with
  | some j => rfl
  | none => cases c.typeOf? v.node <;> rfl

theorem adopt_eq_ok {j : SlotId} {d d' : Draft} {w : TypeVar} (h : adopt j d = .ok w d') :
    ∃ s, (d.commit c).slot? j = some s ∧ w = ⟨s.node⟩ ∧
      d'.commit c = (d.commit c).bindType s.node j := by
  obtain ⟨s, d₁, hslot, hrest⟩ := bind_eq_ok h
  obtain ⟨rfl, hs⟩ := slot_eq_ok (c := c) hslot
  cases hrest
  exact ⟨s, hs, rfl, rfl⟩

theorem steps_adopt (j : SlotId) (d : Draft) :
    Context.CopySteps (d.commit c) (((adopt j).after d).commit c) := by
  apply steps_bind
  · rw [after_slot]
  · intro s d₁ hslot
    obtain ⟨rfl, hs⟩ := slot_eq_ok (c := c) hslot
    exact .single (.adopt hs)

theorem after_tooDeep (i : SlotId) (d : Draft) : (tooDeep c i).after d = d := by
  cases h : slot i d with
  | ok s d₁ =>
    obtain ⟨rfl, -⟩ := slot_eq_ok (c := c) h
    rw [after, tooDeep, bind_of_ok h]
    rfl
  | error e d₁ =>
    have hd : (slot i).after d = d₁ := after_of_error h
    rw [after_slot] at hd
    rw [after, tooDeep, bind_of_error h, hd]

end Copying

namespace Context

variable {c : Context} {copy : SlotId → Copying SlotId}

theorem steps_copyChild (hcopy : ∀ i d, CopySteps (d.commit c) (((copy i).after d).commit c))
    (v : TypeVar) (d : Draft) :
    CopySteps (d.commit c) (((c.copyChild copy v).after d).commit c) := by
  apply Copying.steps_bind
  · rw [Copying.after_target]
  · intro i d₁ _
    split
    · exact .refl
    · exact Copying.steps_bind (hcopy i d₁) fun j d₂ _ => Copying.steps_adopt j d₂

theorem steps_copyChildren (hcopy : ∀ i d, CopySteps (d.commit c) (((copy i).after d).commit c))
    (vars : List TypeVar) (d : Draft) :
    CopySteps (d.commit c) (((c.copyChildren copy vars).after d).commit c) := by
  induction vars generalizing d with
  | nil => exact .refl
  | cons v rest ih =>
    refine Copying.steps_bind (steps_copyChild hcopy v d) fun w d₁ _ => ?_
    exact Copying.steps_bind (ih d₁) fun ws d₂ _ => .refl

/-- What replaces a child has a type. -/
theorem typed_copyChild {v w : TypeVar} {d d' : Draft} (h : c.copyChild copy v d = .ok w d') :
    ∃ k, (d'.commit c).typeOf? w.node = some k := by
  obtain ⟨i, d₁, htarget, hrest⟩ := Copying.bind_eq_ok h
  obtain ⟨rfl, hi⟩ := Copying.target_eq_ok htarget
  split at hrest
  · cases hrest
    exact ⟨i, hi⟩
  · obtain ⟨j, d₂, -, hadopt⟩ := Copying.bind_eq_ok hrest
    obtain ⟨s, -, rfl, hcommit⟩ := Copying.adopt_eq_ok (c := c) hadopt
    rw [hcommit, typeOf?_bindType, if_pos rfl]
    exact ⟨j, rfl⟩

theorem typed_copyChildren (hcopy : ∀ i d, CopySteps (d.commit c) (((copy i).after d).commit c))
    {vars ws : List TypeVar} {d d' : Draft} (h : c.copyChildren copy vars d = .ok ws d') :
    ∀ w ∈ ws, ∃ k, (d'.commit c).typeOf? w.node = some k := by
  induction vars generalizing ws d with
  | nil =>
    cases h
    simp
  | cons v rest ih =>
    obtain ⟨w, d₁, hhead, h⟩ := Copying.bind_eq_ok h
    obtain ⟨us, d₂, htail, h⟩ := Copying.bind_eq_ok h
    cases h
    intro u hu
    rcases List.mem_cons.mp hu with rfl | hu
    -- the first child has a type when it is copied, and the others do not take it away
    · have hsteps := steps_copyChildren hcopy rest d₁
      rw [Copying.after_of_ok htail] at hsteps
      exact hsteps.typed (typed_copyChild hhead)
    · exact ih htail u hu

/-- A copy goes by steps from the draft it is given to the one it leaves. -/
theorem steps_copySlot (c : Context) (fuel : Nat) (i : SlotId) (d : Draft) :
    CopySteps (d.commit c) (((c.copySlot fuel i).after d).commit c) := by
  induction fuel generalizing i d with
  | zero =>
    rw [copySlot, Copying.after_tooDeep]
  | succ fuel ih =>
    rw [copySlot]
    apply Copying.steps_bind
    · rw [Copying.after_slot]
    · intro s d₁ hslot
      obtain ⟨rfl, hs⟩ := Copying.slot_eq_ok (c := c) hslot
      split
      · exact .single (.rename hs ‹_›)
      · refine Copying.steps_bind (steps_copyChildren ih _ _) fun vars d₂ hvars => ?_
        have hsteps := steps_copyChildren ih s.shape.owned d₁
        rw [Copying.after_of_ok hvars] at hsteps
        refine .single (.push (hsteps.slot? hs) ?_ (typed_copyChildren ih hvars))
        exact Slot.isInfer_eq_false ‹_›

end Context

end TypeStore
