import TypeStore.Proofs.Copying.Step

/-!
# Finished copies

What a copy that succeeds has done, as a relation between the context before and the context
after. `Copied c vars ws c'` says that the children `vars` were copied one after the other and
are replaced by `ws`: a builtin type by the variable that led to it, an inference variable by its
fresh node, any other type by the node of the slot that was copied. Rule induction on it goes
along the recursion of a copy, with the fuel left out.

Slot ids have to last for this; where they do not, a new slot cannot be found again.
-/

namespace TypeStore.Context

/-! ## New slots -/

/-- One more slot, which becomes the type of its node. -/
structure Extends (c c' : Context) (t : Slot) : Prop where
  steps : CopySteps c c'
  room : c.size < 2 ^ 32
  slots : ∀ i, c'.slot? i = if i.index = c.size then some t else c.slot? i
  types : ∀ n, c'.typeOf? n = if t.node = n then some (nextSlot c.arena) else c.typeOf? n

namespace Extends

variable {c c' : Context} {t : Slot}

theorem slot?_nextSlot (h : c.Extends c' t) : c'.slot? (nextSlot c.arena) = some t := by
  rw [h.slots, if_pos (index_nextSlot h.room)]

theorem typeOf?_node (h : c.Extends c' t) : c'.typeOf? t.node = some (nextSlot c.arena) := by
  rw [h.types, if_pos rfl]

theorem size_lt (h : c.Extends c' t) : c.size < c'.size := by
  have hlt := index_lt_of_slot? h.slot?_nextSlot
  rwa [index_nextSlot h.room] at hlt

/-- Giving the slot to its node once more changes nothing. -/
theorem adopt (h : c.Extends c' t) : c.Extends (c'.bindType t.node (nextSlot c.arena)) t where
  steps := h.steps.tail (.adopt h.slot?_nextSlot)
  room := h.room
  slots := h.slots
  types n := by
    rw [typeOf?_bindType, h.types]
    split <;> rfl

end Extends

theorem extends_renamed {c : Context} {i : SlotId} {s : Slot} {state : Inference.State}
    {location : Location} (locations : NodeMap Location) (slot : c.slot? i = some s)
    (shape : s.shape = .infer state location) (room : c.size < 2 ^ 32) :
    c.Extends (c.renamed s state location locations)
      (s.renamedInfer c.supply.next state location) where
  steps := .single (.rename slot shape)
  room := room
  slots := slot?_renamed c s state location locations
  types := typeOf?_renamed c s state location locations

theorem extends_composite {c : Context} {i : SlotId} {s : Slot} {us : List TypeVar}
    (slot : c.slot? i = some s) (composite : s.isInfer = false)
    (typed : ∀ u ∈ us, ∃ k, c.typeOf? u.node = some k) (room : c.size < 2 ^ 32) :
    c.Extends ((c.allocate (s.withOwned us)).2.bindType s.node (nextSlot c.arena))
      (s.withOwned us) where
  steps := by
    have hpush : CopyStep c (c.allocate (s.withOwned us)).2 := .push slot composite typed
    have hadopt : CopyStep (c.allocate (s.withOwned us)).2 _ :=
      .adopt (slot?_allocate_nextSlot room (s.withOwned us))
    exact .tail (.single hpush) hadopt
  room := room
  slots := slot?_allocate c (s.withOwned us)
  types n := typeOf?_bindType _ _ n _

/-! ## The relation -/

/-- Children were copied from left to right. -/
inductive Copied : Context → List TypeVar → List TypeVar → Context → Prop
  | nil {c : Context} : Copied c [] [] c
  | shared {c c' : Context} {v : TypeVar} {rest ws : List TypeVar} {i : SlotId}
      (type : c.typeOf? v.node = some i) (builtin : c.isBuiltin i = true)
      (tail : Copied c rest ws c') : Copied c (v :: rest) (v :: ws) c'
  | infer {c m c' : Context} {v : TypeVar} {rest ws : List TypeVar} {i : SlotId} {s : Slot}
      {state : Inference.State} {location : Location}
      (type : c.typeOf? v.node = some i) (own : c.isBuiltin i = false)
      (slot : c.slot? i = some s) (shape : s.shape = .infer state location)
      (new : c.Extends m (s.renamedInfer c.supply.next state location))
      (minted : m.supply.next.raw = c.supply.next.raw + 1)
      (tail : Copied m rest ws c') : Copied c (v :: rest) (⟨c.supply.next⟩ :: ws) c'
  | composite {c c₁ m c' : Context} {v : TypeVar} {rest us ws : List TypeVar} {i : SlotId}
      {s : Slot} (type : c.typeOf? v.node = some i) (own : c.isBuiltin i = false)
      (slot : c.slot? i = some s) (composite : s.isInfer = false)
      (owned : Copied c s.shape.owned us c₁) (new : c₁.Extends m (s.withOwned us))
      (tail : Copied m rest ws c') : Copied c (v :: rest) (⟨s.node⟩ :: ws) c'

/-- A slot was copied. Only the copy of an inference variable becomes the type of its node. -/
inductive CopiedSlot : Context → SlotId → SlotId → Context → Prop
  | infer {c c' : Context} {i : SlotId} {s : Slot} {state : Inference.State}
      {location : Location} (slot : c.slot? i = some s) (shape : s.shape = .infer state location)
      (new : c.Extends c' (s.renamedInfer c.supply.next state location))
      (minted : c'.supply.next.raw = c.supply.next.raw + 1) :
      CopiedSlot c i (nextSlot c.arena) c'
  | composite {c c₁ : Context} {i : SlotId} {s : Slot} {us : List TypeVar}
      (slot : c.slot? i = some s) (composite : s.isInfer = false)
      (owned : Copied c s.shape.owned us c₁) (room : c₁.size < 2 ^ 32) :
      CopiedSlot c i (nextSlot c₁.arena) (c₁.allocate (s.withOwned us)).2

/-- Children are copied by steps, and what replaces them has a type. -/
theorem Copied.steps {c c' : Context} {vars ws : List TypeVar} (h : Copied c vars ws c') :
    CopySteps c c' ∧ ∀ w ∈ ws, ∃ k, c'.typeOf? w.node = some k := by
  induction h with
  | nil => exact ⟨.refl, by simp⟩
  | shared type builtin tail ih =>
    have hhead := CopySteps.typed ih.1 ⟨_, type⟩
    exact ⟨ih.1, List.forall_mem_cons.mpr ⟨hhead, ih.2⟩⟩
  | infer type own slot shape new minted tail ih =>
    have hhead := CopySteps.typed ih.1 ⟨_, new.typeOf?_node⟩
    exact ⟨new.steps.trans ih.1, List.forall_mem_cons.mpr ⟨hhead, ih.2⟩⟩
  | composite type own slot composite owned new tail ihOwned ih =>
    have hhead := CopySteps.typed ih.1 ⟨_, new.typeOf?_node⟩
    exact ⟨ihOwned.1.trans (new.steps.trans ih.1), List.forall_mem_cons.mpr ⟨hhead, ih.2⟩⟩

/-- The last step of a copy whose children are copied. -/
theorem Copied.push {c c₁ : Context} {i : SlotId} {s : Slot} {us : List TypeVar}
    (owned : Copied c s.shape.owned us c₁) (slot : c.slot? i = some s)
    (composite : s.isInfer = false) : CopyStep c₁ (c₁.allocate (s.withOwned us)).2 :=
  .push (CopySteps.slot? owned.steps.1 slot) composite owned.steps.2

theorem CopiedSlot.steps {c c' : Context} {i j : SlotId} (h : CopiedSlot c i j c') :
    CopySteps c c' := by
  cases h with
  | infer slot shape new minted => exact new.steps
  | composite slot composite owned room => exact owned.steps.1.tail (owned.push slot composite)

/-- A slot that was copied and given to its node is a copied child. -/
theorem Copied.child {c c₁ c' : Context} {v : TypeVar} {rest ws : List TypeVar} {i j : SlotId}
    {t : Slot} (htype : c.typeOf? v.node = some i) (hown : c.isBuiltin i = false)
    (hslot : CopiedSlot c i j c₁) (ht : c₁.slot? j = some t)
    (htail : Copied (c₁.bindType t.node j) rest ws c') :
    Copied c (v :: rest) (⟨t.node⟩ :: ws) c' := by
  cases hslot with
  | infer slot shape new minted =>
    rw [new.slot?_nextSlot] at ht
    cases ht
    exact .infer htype hown slot shape new.adopt minted htail
  | @composite _ _ s us slot composite owned room =>
    -- the slot in question is the one that was pushed last
    rw [slot?_allocate_nextSlot room] at ht
    cases ht
    obtain ⟨hsteps, htyped⟩ := owned.steps
    have new := extends_composite (CopySteps.slot? hsteps slot) composite htyped room
    exact .composite (s := s) htype hown slot composite owned new htail

/-! ## From runs to the relation -/

section Run

variable {c : Context} {copy : SlotId → Copying SlotId}

theorem copied_copyChild {v w : TypeVar} {d d' : Draft}
    (hcopy : ∀ i j d d', copy i d = .ok j d' → d'.arena.size ≤ 2 ^ 32 →
      CopiedSlot (d.commit c) i j (d'.commit c))
    (h : c.copyChild copy v d = .ok w d') (hsize : d'.arena.size ≤ 2 ^ 32)
    {rest ws : List TypeVar} {c' : Context} (htail : Copied (d'.commit c) rest ws c') :
    Copied (d.commit c) (v :: rest) (w :: ws) c' := by
  obtain ⟨i, d₁, htarget, hrest⟩ := Copying.bind_eq_ok h
  obtain ⟨rfl, htype⟩ := Copying.target_eq_ok htarget
  split at hrest
  · cases hrest
    exact .shared htype ‹_› htail
  · rename_i hown
    obtain ⟨j, d₂, hrun, hadopt⟩ := Copying.bind_eq_ok hrest
    obtain ⟨t, ht, rfl, hcommit⟩ := Copying.adopt_eq_ok (c := c) hadopt
    have hsize₂ : (d₂.commit c).size ≤ 2 ^ 32 := by
      rw [← size_bindType (d₂.commit c) t.node j, ← hcommit]
      exact hsize
    rw [hcommit] at htail
    exact .child htype (Bool.eq_false_iff.mpr hown) (hcopy i j d₁ d₂ hrun hsize₂) ht htail

theorem copied_copyChildren
    (hsteps : ∀ i d, CopySteps (d.commit c) (((copy i).after d).commit c))
    (hcopy : ∀ i j d d', copy i d = .ok j d' → d'.arena.size ≤ 2 ^ 32 →
      CopiedSlot (d.commit c) i j (d'.commit c))
    {vars ws : List TypeVar} {d d' : Draft} (h : c.copyChildren copy vars d = .ok ws d')
    (hsize : d'.arena.size ≤ 2 ^ 32) : Copied (d.commit c) vars ws (d'.commit c) := by
  induction vars generalizing ws d with
  | nil =>
    cases h
    exact .nil
  | cons v rest ih =>
    obtain ⟨w, d₁, hhead, h⟩ := Copying.bind_eq_ok h
    obtain ⟨us, d₂, htail, h⟩ := Copying.bind_eq_ok h
    cases h
    have hgrow := (steps_copyChildren hsteps rest d₁)
    rw [Copying.after_of_ok htail] at hgrow
    have hsize₁ : (d₁.commit c).size ≤ 2 ^ 32 :=
      Nat.le_trans (CopySteps.size_le hgrow) hsize
    exact copied_copyChild hcopy hhead hsize₁ (ih htail)

theorem copySlot_of_infer {fuel : Nat} {i : SlotId} {d : Draft} {s : Slot}
    {state : Inference.State} {location : Location} (hslot : Copying.slot i d = .ok s d)
    (hshape : s.shape = .infer state location) :
    c.copySlot (fuel + 1) i d = Copying.renameInfer c s state location d := by
  rw [copySlot, Copying.bind_of_ok hslot, hshape]

theorem copySlot_of_composite {fuel : Nat} {i : SlotId} {d : Draft} {s : Slot}
    (hslot : Copying.slot i d = .ok s d) (hcomposite : s.isInfer = false) :
    c.copySlot (fuel + 1) i d
      = (c.copyChildren (c.copySlot fuel) s.shape.owned >>= fun vars =>
        Copying.push (s.withOwned vars)) d := by
  rw [copySlot, Copying.bind_of_ok hslot]
  obtain ⟨node, binding, declaration, bounds, absorbed, shape⟩ := s
  cases shape with
  | infer state location => cases hcomposite
  | _ => rfl

/-- A run that succeeds has copied the slot. -/
theorem copied_copySlot (c : Context) {fuel : Nat} {i j : SlotId} {d d' : Draft}
    (h : c.copySlot fuel i d = .ok j d') (hsize : d'.arena.size ≤ 2 ^ 32) :
    CopiedSlot (d.commit c) i j (d'.commit c) := by
  induction fuel generalizing i j d d' with
  | zero =>
    obtain ⟨s, d₁, -, h⟩ := Copying.bind_eq_ok h
    cases h
  | succ fuel ih =>
    obtain ⟨s, d₁, hslot, -⟩ := Copying.bind_eq_ok h
    obtain ⟨rfl, hs⟩ := Copying.slot_eq_ok (c := c) hslot
    cases hinfer : s.isInfer with
    | true =>
      obtain ⟨state, location, hshape⟩ := Slot.isInfer_iff.mp hinfer
      rw [copySlot_of_infer hslot hshape] at h
      cases h
      have hroom : d₁.arena.size < 2 ^ 32 := by
        have : (d₁.arena.push (s.renamedInfer d₁.supply.next state location)).size ≤ 2 ^ 32 :=
          hsize
        rw [Array.size_push] at this
        exact this
      exact .infer hs hshape (extends_renamed (c := d₁.commit c) _ hs hshape hroom) rfl
    | false =>
      rw [copySlot_of_composite hslot hinfer] at h
      obtain ⟨us, d₂, hchildren, hpush⟩ := Copying.bind_eq_ok h
      cases hpush
      have hroom : d₂.arena.size < 2 ^ 32 := by
        have : (d₂.arena.push (s.withOwned us)).size ≤ 2 ^ 32 := hsize
        rw [Array.size_push] at this
        exact this
      exact .composite hs hinfer (copied_copyChildren (steps_copySlot c fuel)
        (fun _ _ _ _ => ih) hchildren (Nat.le_of_lt hroom)) hroom

end Run

theorem finish_eq_ok {α : Type} {c c' : Context} {x : Copying α} {a : α}
    (h : c.finish x = (.ok a, c')) : ∃ d, x (.start c) = .ok a d ∧ c' = d.commit c := by
  unfold finish EStateM.run at h
  cases hx : x (.start c) with
  | ok b d =>
    rw [hx] at h
    cases h
    exact ⟨d, rfl, rfl⟩
  | error f d =>
    rw [hx] at h
    cases h

/-- Copying a slot, as a whole. -/
theorem copied_copy {c c' : Context} {i j : SlotId} (h : c.copy i = (.ok j, c'))
    (hsize : c'.size ≤ 2 ^ 32) : CopiedSlot c i j c' := by
  obtain ⟨d, hrun, rfl⟩ := finish_eq_ok h
  exact copied_copySlot c hrun hsize

/-- Copying a variable, as a whole: it is copied as a single child. -/
theorem copied_copyVar {c c' : Context} {v w : TypeVar} (h : c.copyVar v = (.ok w, c'))
    (hsize : c'.size ≤ 2 ^ 32) : Copied c [v] [w] c' := by
  obtain ⟨d, hrun, rfl⟩ := finish_eq_ok h
  exact copied_copyChild (d := .start c) (fun _ _ _ _ => copied_copySlot c) hrun hsize .nil

end TypeStore.Context
