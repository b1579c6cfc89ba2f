import Mathlib.Data.List.Forall2
import TypeStore.Proofs.Copying.Copied
import TypeStore.Proofs.WellFormed
import TypeStore.Shape.Owned

/-!
# Where copies come from

The table of types may give a node a slot that was made for another node, and a node may have been
given one slot after the other. A copy is written under the node of the slot that was copied, so
what it changes in the table need not be the entry it followed. `Derived` says what can be told of
a store that children were copied in, whatever the table was like before:

* an entry of the table is as it was, or it leads to a new slot made for the node of the entry;
* a new slot is an inference variable under a node minted meanwhile, or a copy of an old slot that
  some node had as its type;
* the children of a new slot are builtin or have new slots.

Children may be copied more than once on the way. The copy of a new slot is then again a copy of
the old slot where it came from.
-/

namespace TypeStore.Context

/-! ## Nodes -/

/-- One of the nodes that the supply handed out between two stores; there was a new slot for each
of them. -/
def Minted (c c' : Context) (n : NodeId) : Prop :=
  ∃ count k, k < count ∧ c.size + count ≤ c'.size ∧
    c'.supply.next.raw.toNat = (c.supply.next.raw.toNat + count) % 2 ^ 32 ∧
    n.raw.toNat = (c.supply.next.raw.toNat + k) % 2 ^ 32

/-- A node that the store knows of. -/
def Uses (c : Context) (n : NodeId) : Prop :=
  (∃ i, c.typeOf? n = some i) ∨ ∃ i s, c.slot? i = some s ∧ n ∈ s.mentions

/-- The supply handed out a node that was in use before. -/
def Reused (c c' : Context) : Prop := ∃ n, c.Uses n ∧ c.Minted c' n

/-- A node leads to a new slot that was made for it. -/
def Renewed (c c' : Context) (n : NodeId) : Prop :=
  ∃ k t, c'.typeOf? n = some k ∧ c.size ≤ k.index ∧ c'.slot? k = some t ∧ t.node = n

/-- A variable that needs no copy, since its type is builtin, or has got one. -/
def Settled (c c' : Context) (v : TypeVar) : Prop :=
  (∃ k, c'.typeOf? v.node = some k ∧ c.isBuiltin k = true) ∨ c.Renewed c' v.node

/-! ## Copies of slots -/

/-- What stands in a copy in place of a child. -/
inductive ChildCopy (c c' : Context) (v : TypeVar) : TypeVar → Prop
  | same : ChildCopy c c' v v
  /-- The child was an inference variable and is called by a fresh node. -/
  | fresh {w : TypeVar} (minted : c.Minted c' w.node)
      (infer : c.Reused c' ∨ ∃ i s, c.typeOf? v.node = some i ∧ c.isBuiltin i = false ∧
        c'.slot? i = some s ∧ s.isInfer = true) : ChildCopy c c' v w
  /-- The child was something else and is called by the node it was made for. -/
  | named {i : SlotId} {s : Slot} (type : c.typeOf? v.node = some i)
      (own : c.isBuiltin i = false) (slot : c'.slot? i = some s)
      (composite : s.isInfer = false) : ChildCopy c c' v ⟨s.node⟩

/-- A slot is a copy of another one that is no inference variable. -/
structure CopyOf (c c' : Context) (s t : Slot) : Prop where
  composite : s.isInfer = false
  node : t.node = s.node
  binding : t.binding = s.binding
  declaration : t.declaration = s.declaration
  bounds : t.bounds = s.bounds
  absorbed : t.absorbed = s.absorbed
  shape : ∃ ws, List.Forall₂ (c.ChildCopy c') s.shape.owned ws ∧ t.shape = s.shape.withOwned ws

/-- How a slot came into the store. -/
inductive Origin (c c' : Context) (t : Slot) : Prop
  | infer (infer : t.isInfer = true) (minted : c.Minted c' t.node)
  | copy {n : NodeId} {i : SlotId} {s : Slot} (type : c.typeOf? n = some i)
      (own : c.isBuiltin i = false) (slot : c.slot? i = some s) (copy : c.CopyOf c' s t)

section Mono

variable {c m c' : Context}

theorem Minted.mono {n : NodeId} (h : c.Minted m n) (steps : CopySteps m c') :
    c.Minted c' n := by
  obtain ⟨count, k, hk, hsize, hnext, hn⟩ := h
  obtain ⟨more, hnext', hsize'⟩ := CopySteps.minted_le steps
  refine ⟨count + more, k, by omega, by omega, ?_, hn⟩
  rw [hnext', hnext]
  omega

theorem Reused.mono (h : c.Reused m) (steps : CopySteps m c') : c.Reused c' := by
  obtain ⟨n, huses, hminted⟩ := h
  exact ⟨n, huses, hminted.mono steps⟩

theorem ChildCopy.mono {v w : TypeVar} (h : c.ChildCopy m v w) (steps : CopySteps m c') :
    c.ChildCopy c' v w := by
  cases h with
  | same => exact .same
  | fresh minted infer =>
    refine .fresh (minted.mono steps) ?_
    rcases infer with hreused | ⟨i, s, type, own, slot, hinfer⟩
    · exact .inl (hreused.mono steps)
    · exact .inr ⟨i, s, type, own, CopySteps.slot? steps slot, hinfer⟩
  | named type own slot composite =>
    exact .named type own (CopySteps.slot? steps slot) composite

theorem CopyOf.isInfer_eq {s t : Slot} (h : c.CopyOf c' s t) : t.isInfer = false := by
  obtain ⟨ws, -, hshape⟩ := h.shape
  have hinfer : t.isInfer = (s.withOwned ws).isInfer := Slot.isInfer_congr hshape
  rw [hinfer, Slot.isInfer_withOwned, h.composite]

theorem CopyOf.mono {s t : Slot} (h : c.CopyOf m s t) (steps : CopySteps m c') :
    c.CopyOf c' s t := by
  obtain ⟨ws, hws, hshape⟩ := h.shape
  exact { h with shape := ⟨ws, hws.imp fun _ _ hvw => hvw.mono steps, hshape⟩ }

theorem Origin.mono {t : Slot} (h : c.Origin m t) (steps : CopySteps m c') : c.Origin c' t := by
  cases h with
  | infer infer minted => exact .infer infer (minted.mono steps)
  | copy type own slot copy => exact .copy type own slot (copy.mono steps)

/-- The node that the supply hands out next is minted by the next step that mints one. -/
theorem CopySteps.minted_next (steps : CopySteps c m) (hsize : m.size < c'.size)
    (hnext : c'.supply.next.raw = m.supply.next.raw + 1) : c.Minted c' m.supply.next := by
  obtain ⟨k, hk, hsize'⟩ := CopySteps.minted_le steps
  refine ⟨k + 1, k, by omega, by omega, ?_, hk⟩
  rw [hnext, UInt32.toNat_add, hk]
  have h1 : (1 : UInt32).toNat = 1 := rfl
  omega

end Mono

/-! ## Stores in which children were copied -/

/-- The second store came from the first by copying children. -/
structure Derived (c c' : Context) : Prop where
  steps : CopySteps c c'
  types : ∀ n, c'.typeOf? n = c.typeOf? n ∨ c.Renewed c' n
  origin : ∀ {k t}, c.size ≤ k.index → c'.slot? k = some t → c.Origin c' t
  children : ∀ {k t}, c.size ≤ k.index → c'.slot? k = some t →
    ∀ w ∈ t.shape.owned, c.Settled c' w

/-- Copying a child at a time when the store `m` was reached. -/
inductive ChildStep (c m c' : Context) (v : TypeVar) : TypeVar → Prop
  | same : ChildStep c m c' v v
  /-- An inference variable that was made on the way is copied once more. -/
  | again {w : TypeVar} (minted : c.Minted c' w.node) (before : c.Minted c' v.node) :
      ChildStep c m c' v w
  | fresh {w : TypeVar} {i : SlotId} {s : Slot} (unsettled : ¬ c.Settled m v)
      (minted : c.Minted c' w.node) (type : c.typeOf? v.node = some i)
      (own : c.isBuiltin i = false) (slot : c'.slot? i = some s) (infer : s.isInfer = true) :
      ChildStep c m c' v w
  | named {i : SlotId} {s : Slot} (unsettled : ¬ c.Settled m v)
      (type : c.typeOf? v.node = some i) (own : c.isBuiltin i = false)
      (slot : c'.slot? i = some s) (composite : s.isInfer = false) :
      ChildStep c m c' v ⟨s.node⟩

section Derive

variable {c m c' : Context}

theorem Derived.refl (c : Context) : c.Derived c where
  steps := .refl
  types _ := .inl rfl
  origin hk ht := absurd (index_lt_of_slot? ht) (Nat.not_lt.mpr hk)
  children hk ht := absurd (index_lt_of_slot? ht) (Nat.not_lt.mpr hk)

theorem Extends.renewed {t : Slot} (h : m.Extends c' t) (hsize : c.size ≤ m.size) :
    c.Renewed c' t.node := by
  refine ⟨nextSlot m.arena, t, h.typeOf?_node, ?_, h.slot?_nextSlot, rfl⟩
  rw [index_nextSlot h.room]
  exact hsize

theorem Renewed.extend {t : Slot} {n : NodeId} (hn : c.Renewed m n) (h : m.Extends c' t)
    (hsize : c.size ≤ m.size) : c.Renewed c' n := by
  by_cases heq : t.node = n
  · exact heq ▸ h.renewed hsize
  · obtain ⟨k, u, hk, hnew, hu, hnode⟩ := hn
    refine ⟨k, u, ?_, hnew, CopySteps.slot? h.steps hu, hnode⟩
    rw [h.types, if_neg heq, hk]

theorem Settled.extend {t : Slot} {v : TypeVar} (hv : c.Settled m v) (h : m.Extends c' t)
    (hsize : c.size ≤ m.size) : c.Settled c' v := by
  rcases hv with ⟨k, hk, hbuiltin⟩ | hrenewed
  · by_cases heq : t.node = v.node
    · exact .inr (heq ▸ h.renewed hsize)
    · refine .inl ⟨k, ?_, hbuiltin⟩
      rw [h.types, if_neg heq, hk]
  · exact .inr (hrenewed.extend h hsize)

theorem Derived.extend (hd : c.Derived m) {t : Slot} (h : m.Extends c' t)
    (horigin : c.Origin c' t) (hchildren : ∀ w ∈ t.shape.owned, c.Settled m w) :
    c.Derived c' := by
  have hsize := CopySteps.size_le hd.steps
  refine ⟨hd.steps.trans h.steps, ?_, ?_, ?_⟩
  · intro n
    by_cases heq : t.node = n
    · exact .inr (heq ▸ h.renewed hsize)
    · rcases hd.types n with hsame | hrenewed
      · refine .inl ?_
        rw [h.types, if_neg heq, hsame]
      · exact .inr (hrenewed.extend h hsize)
  · intro k u hk hu
    rw [h.slots] at hu
    split at hu
    · cases hu
      exact horigin
    · exact (hd.origin hk hu).mono h.steps
  · intro k u hk hu w hw
    rw [h.slots] at hu
    split at hu
    · cases hu
      exact (hchildren w hw).extend h hsize
    · exact (hd.children hk hu w hw).extend h hsize

/-! ## Copying children -/

theorem ChildStep.mono {m' c'' : Context} {v w : TypeVar} (h : c.ChildStep m c' v w)
    (hsettled : c.Settled m' v → c.Settled m v) (steps : CopySteps c' c'') :
    c.ChildStep m' c'' v w := by
  cases h with
  | same => exact .same
  | again minted before => exact .again (minted.mono steps) (before.mono steps)
  | fresh unsettled minted type own slot infer =>
    exact .fresh (fun hv => unsettled (hsettled hv)) (minted.mono steps) type own
      (CopySteps.slot? steps slot) infer
  | named unsettled type own slot composite =>
    exact .named (fun hv => unsettled (hsettled hv)) type own (CopySteps.slot? steps slot)
      composite

/-- A child that is settled, but not builtin, leads to a new slot made for it. -/
theorem Settled.node_eq {v : TypeVar} (hv : c.Settled m v) {i : SlotId} {s : Slot}
    (type : m.typeOf? v.node = some i) (own : c.isBuiltin i = false) (slot : m.slot? i = some s) :
    c.size ≤ i.index ∧ s.node = v.node := by
  rcases hv with ⟨k, hk, hbuiltin⟩ | ⟨k, t, hk, hnew, ht, hnode⟩
  · rw [type] at hk
    cases hk
    rw [own] at hbuiltin
    cases hbuiltin
  · rw [type] at hk
    cases hk
    rw [slot] at ht
    cases ht
    exact ⟨hnew, hnode⟩

/-- A child that is not settled has the type that it had at the beginning. -/
theorem Derived.type_of_unsettled (hd : c.Derived m) {v : TypeVar} (hv : ¬ c.Settled m v)
    {i : SlotId} (type : m.typeOf? v.node = some i) : c.typeOf? v.node = some i := by
  rcases hd.types v.node with hsame | hrenewed
  · rw [← hsame, type]
  · exact absurd (.inr hrenewed) hv

/-- Copying an inference variable. -/
theorem Derived.infer (hd : c.Derived m) {v : TypeVar} {i : SlotId} {s : Slot}
    (type : m.typeOf? v.node = some i) (own : c.isBuiltin i = false) (slot : m.slot? i = some s)
    (hinfer : s.isInfer = true) (hsteps : CopySteps m c') (hminted : c.Minted c' m.supply.next) :
    c.ChildStep m c' v ⟨m.supply.next⟩ := by
  by_cases hv : c.Settled m v
  · obtain ⟨hnew, hnode⟩ := hv.node_eq type own slot
    -- the variable is new itself, so it has a node that was minted
    cases hd.origin hnew slot with
    | infer _ minted => exact .again hminted (hnode ▸ minted.mono hsteps)
    | copy _ _ _ copy =>
      rw [copy.isInfer_eq] at hinfer
      cases hinfer
  · exact .fresh hv hminted (hd.type_of_unsettled hv type) own (CopySteps.slot? hsteps slot) hinfer

/-- Copying anything else. -/
theorem Derived.composite (hd : c.Derived m) {v : TypeVar} {i : SlotId} {s : Slot}
    (type : m.typeOf? v.node = some i) (own : c.isBuiltin i = false) (slot : m.slot? i = some s)
    (hcomposite : s.isInfer = false) (hsteps : CopySteps m c') :
    c.ChildStep m c' v ⟨s.node⟩ := by
  by_cases hv : c.Settled m v
  · obtain ⟨-, hnode⟩ := hv.node_eq type own slot
    rw [hnode]
    exact .same
  · exact .named hv (hd.type_of_unsettled hv type) own (CopySteps.slot? hsteps slot) hcomposite

theorem uses_of_mem_owned {i : SlotId} {s : Slot} (slot : c.slot? i = some s) {v : TypeVar}
    (hv : v ∈ s.shape.owned) : c.Uses v.node := by
  refine .inr ⟨i, s, slot, ?_⟩
  simpa [Slot.mentions] using .inr (.inr ⟨v, Shape.mem_children_of_mem_owned hv, rfl⟩)

theorem CopySteps.uses (h : CopySteps c c') {n : NodeId} (hn : c.Uses n) : c'.Uses n := by
  rcases hn with hn | ⟨i, s, hs, hmem⟩
  · exact .inl (CopySteps.typed h hn)
  · exact .inr ⟨i, s, CopySteps.slot? h hs, hmem⟩

/-- New slots, inference variables apart, are made for nodes that were in use. -/
theorem Derived.uses_node (hd : c.Derived m) {i : SlotId} {s : Slot} (slot : m.slot? i = some s)
    (hcomposite : s.isInfer = false) : c.Uses s.node := by
  by_cases hi : i.index < c.size
  · exact .inr ⟨i, s, CopySteps.slot?_of_lt hd.steps hi slot, by simp [Slot.mentions]⟩
  · cases hd.origin (by omega) slot with
    | infer hinfer _ =>
      rw [hcomposite] at hinfer
      cases hinfer
    | copy _ _ slot' copy =>
      rw [copy.node]
      exact .inr ⟨_, _, slot', by simp [Slot.mentions]⟩

theorem ChildStep.childCopy {v w : TypeVar} (h : c.ChildStep m c' v w) (hv : c.Uses v.node) :
    c.ChildCopy c' v w := by
  cases h with
  | same => exact .same
  | again minted before => exact .fresh minted (.inl ⟨v.node, hv, before⟩)
  | fresh _ minted type own slot infer =>
    exact .fresh minted (.inr ⟨_, _, type, own, slot, infer⟩)
  | named _ type own slot composite => exact .named type own slot composite

/-- A child of a copy that is copied once more. -/
theorem ChildCopy.again (hd : c.Derived m) (hsteps : CopySteps m c') {v w u : TypeVar}
    (hvw : c.ChildCopy m v w) (hv : c.Uses v.node) (hw : c.Settled m w)
    (hwu : c.ChildStep m c' w u) : c.ChildCopy c' v u := by
  cases hwu with
  | same => exact hvw.mono hsteps
  | again minted before =>
    refine .fresh minted ?_
    cases hvw with
    | same => exact .inl ⟨v.node, hv, before⟩
    | fresh _ infer =>
      rcases infer with hreused | ⟨i, s, type, own, slot, hinfer⟩
      · exact .inl (hreused.mono hsteps)
      · exact .inr ⟨i, s, type, own, CopySteps.slot? hsteps slot, hinfer⟩
    | named _ _ slot composite => exact .inl ⟨_, hd.uses_node slot composite, before⟩
  | fresh unsettled => exact absurd hw unsettled
  | named unsettled => exact absurd hw unsettled

theorem childCopy_again_all (hd : c.Derived m) (hsteps : CopySteps m c')
    {vs ws us : List TypeVar} (hvw : List.Forall₂ (c.ChildCopy m) vs ws)
    (hvs : ∀ v ∈ vs, c.Uses v.node) (hws : ∀ w ∈ ws, c.Settled m w)
    (hwu : List.Forall₂ (c.ChildStep m c') ws us) : List.Forall₂ (c.ChildCopy c') vs us := by
  induction hvw generalizing us with
  | nil =>
    cases hwu
    exact .nil
  | cons head _ ih =>
    cases hwu with
    | cons head' tail' =>
      refine .cons (head.again hd hsteps (hvs _ List.mem_cons_self) (hws _ List.mem_cons_self)
        head') (ih ?_ ?_ tail')
      · exact fun v hv => hvs v (List.mem_cons_of_mem _ hv)
      · exact fun w hw => hws w (List.mem_cons_of_mem _ hw)

/-- The copy of what a variable leads to is a copy of an old slot, also where the variable leads to
a copy by now. -/
theorem Derived.origin_withOwned (hd : c.Derived m) (hsteps : CopySteps m c') {n : NodeId}
    {i : SlotId} {s : Slot} {us : List TypeVar} (type : m.typeOf? n = some i)
    (own : c.isBuiltin i = false) (slot : m.slot? i = some s) (hcomposite : s.isInfer = false)
    (hus : List.Forall₂ (c.ChildStep m c') s.shape.owned us) : c.Origin c' (s.withOwned us) := by
  by_cases hi : i.index < c.size
  -- an old slot: the entry that leads to it is an old one
  · have hslot := CopySteps.slot?_of_lt hd.steps hi slot
    have htype : c.typeOf? n = some i := by
      rcases hd.types n with hsame | ⟨k, t, hk, hnew, -⟩
      · rw [← hsame, type]
      · rw [type] at hk
        cases hk
        omega
    have hchildren : List.Forall₂ (c.ChildCopy c') s.shape.owned us := by
      refine ((List.forall₂_and_left _ _).mpr ⟨fun v hv => uses_of_mem_owned hslot hv, hus⟩).imp ?_
      rintro v w ⟨hv, hvw⟩
      exact hvw.childCopy hv
    exact .copy htype own hslot
      ⟨hcomposite, rfl, rfl, rfl, Bounds.ofList_toList _, rfl, us, hchildren, rfl⟩
  -- a copy made on the way: its children are settled, so copying it once more renames little
  · cases hd.origin (by omega) slot with
    | infer hinfer _ =>
      rw [hcomposite] at hinfer
      cases hinfer
    | @copy n' i' s' type' own' slot' copy =>
      obtain ⟨ws, hws, hshape⟩ := copy.shape
      have hlength := hws.length_eq.symm
      have howned : s.shape.owned = ws := by rw [hshape, Shape.owned_withOwned hlength]
      have hsettled : ∀ w ∈ ws, c.Settled m w := fun w hw =>
        hd.children (by omega) slot w (howned ▸ hw)
      rw [howned] at hus
      have hchildren := childCopy_again_all hd hsteps hws
        (fun v hv => uses_of_mem_owned slot' hv) hsettled hus
      refine .copy type' own' slot' ⟨copy.composite, copy.node, copy.binding, copy.declaration,
        (Bounds.ofList_toList _).trans copy.bounds, copy.absorbed, us, hchildren, ?_⟩
      show s.shape.withOwned us = s'.shape.withOwned us
      rw [hshape, Shape.withOwned_withOwned hlength hchildren.length_eq.symm]

end Derive

/-- A child that is settled stays so. -/
theorem Copied.settled {base c c' : Context} {vs ws : List TypeVar} (h : Copied c vs ws c')
    (hsize : base.size ≤ c.size) {v : TypeVar} (hv : base.Settled c v) : base.Settled c' v := by
  induction h with
  | nil => exact hv
  | shared type builtin tail ih => exact ih hsize hv
  | infer type own slot shape new minted tail ih =>
    exact ih (Nat.le_trans hsize (Nat.le_of_lt new.size_lt)) (hv.extend new hsize)
  | composite type own slot composite owned new tail ihOwned ih =>
    have hsize₁ := Nat.le_trans hsize (CopySteps.size_le owned.steps.1)
    exact ih (Nat.le_trans hsize₁ (Nat.le_of_lt new.size_lt))
      ((ihOwned hsize hv).extend new hsize₁)

/-- Copying children from a derived store gives a derived store. -/
theorem Copied.derived {base c c' : Context} {vs ws : List TypeVar} (h : Copied c vs ws c')
    (hd : base.Derived c) :
    base.Derived c' ∧ List.Forall₂ (base.ChildStep c c') vs ws ∧
      ∀ w ∈ ws, base.Settled c' w := by
  induction h with
  | nil => exact ⟨hd, .nil, by simp⟩
  | @shared c c' v rest ws i type builtin tail ih =>
    rw [CopySteps.isBuiltin_eq hd.steps] at builtin
    obtain ⟨hd', hrest, hsettled⟩ := ih hd
    refine ⟨hd', .cons .same hrest, List.forall_mem_cons.mpr ⟨?_, hsettled⟩⟩
    exact tail.settled (CopySteps.size_le hd.steps) (.inl ⟨i, type, builtin⟩)
  | @infer c m c' v rest ws i s state location type own slot shape new minted tail ih =>
    rw [CopySteps.isBuiltin_eq hd.steps] at own
    have hsize := CopySteps.size_le hd.steps
    have hsteps := tail.steps.1
    have hminted : base.Minted m c.supply.next :=
      CopySteps.minted_next hd.steps new.size_lt minted
    obtain ⟨hd', hrest, hsettled⟩ := ih (hd.extend new (.infer rfl hminted) (by
      intro w hw
      cases hw))
    refine ⟨hd', .cons ?_ (hrest.imp fun _ _ hvw => ?_), List.forall_mem_cons.mpr ⟨?_, hsettled⟩⟩
    · exact hd.infer type own slot (Slot.isInfer_iff.mpr ⟨state, location, shape⟩)
        (new.steps.trans hsteps) (hminted.mono hsteps)
    · exact hvw.mono (fun hv => hv.extend new hsize) .refl
    · exact tail.settled (Nat.le_trans hsize (Nat.le_of_lt new.size_lt))
        (.inr (new.renewed hsize))
  | @composite c c₁ m c' v rest us ws i s type own slot composite owned new tail ihOwned ih =>
    rw [CopySteps.isBuiltin_eq hd.steps] at own
    obtain ⟨hd₁, hus, hsettled₁⟩ := ihOwned hd
    have hsize := CopySteps.size_le hd.steps
    have hsize₁ := CopySteps.size_le hd₁.steps
    have hchildren : ∀ w ∈ (s.withOwned us).shape.owned, base.Settled c₁ w := by
      have howned : (s.withOwned us).shape.owned = us := Shape.owned_withOwned hus.length_eq.symm
      rw [howned]
      exact hsettled₁
    -- where the slot comes from is asked of the store in which it was looked up
    have horigin : base.Origin m (s.withOwned us) :=
      hd.origin_withOwned (owned.steps.1.trans new.steps) type own slot composite
        (hus.imp fun _ _ hvw => hvw.mono id new.steps)
    obtain ⟨hd', hrest, hsettled⟩ := ih (hd₁.extend new horigin hchildren)
    have hsteps := new.steps.trans tail.steps.1
    refine ⟨hd', .cons ?_ (hrest.imp fun _ _ hvw => ?_), List.forall_mem_cons.mpr ⟨?_, hsettled⟩⟩
    · exact hd.composite type own slot composite (owned.steps.1.trans hsteps)
    · exact hvw.mono (fun hv => (owned.settled hsize hv).extend new hsize₁) .refl
    · exact tail.settled (Nat.le_trans hsize₁ (Nat.le_of_lt new.size_lt))
        (.inr (new.renewed hsize₁))

/-! ## Whole copies -/

/-- Every entry of the table is as it was or leads to a new slot of known origin. -/
def Rebound (c c' : Context) : Prop :=
  ∀ n, c'.typeOf? n = c.typeOf? n ∨
    ∃ k t, c'.typeOf? n = some k ∧ c.size ≤ k.index ∧ c'.slot? k = some t ∧ t.node = n ∧
      c.Origin c' t

theorem Derived.rebound {c m c' : Context} (hd : c.Derived m) (steps : CopySteps m c')
    (htypes : ∀ n, c'.typeOf? n = m.typeOf? n) : c.Rebound c' := by
  intro n
  rw [htypes]
  rcases hd.types n with hsame | ⟨k, t, hk, hnew, ht, hnode⟩
  · exact .inl hsame
  · exact .inr ⟨k, t, hk, hnew, CopySteps.slot? steps ht, hnode, (hd.origin hnew ht).mono steps⟩

/-- Copying one inference variable. -/
theorem Derived.of_infer {c c' : Context} {s : Slot} {state : Inference.State}
    {location : Location} (new : c.Extends c' (s.renamedInfer c.supply.next state location))
    (minted : c'.supply.next.raw = c.supply.next.raw + 1) : c.Derived c' := by
  refine (Derived.refl c).extend new (.infer rfl ?_) ?_
  · exact CopySteps.minted_next (c := c) .refl new.size_lt minted
  · intro w hw
    cases hw

theorem Copied.rebound {c c' : Context} {vs ws : List TypeVar} (h : Copied c vs ws c') :
    c.Rebound c' :=
  (h.derived (.refl c)).1.rebound .refl fun _ => rfl

theorem CopiedSlot.rebound {c c' : Context} {i j : SlotId} (h : CopiedSlot c i j c') :
    c.Rebound c' := by
  cases h with
  | infer slot shape new minted => exact (Derived.of_infer new minted).rebound .refl fun _ => rfl
  | composite slot composite owned room =>
    obtain ⟨hd, -⟩ := owned.derived (Derived.refl c)
    exact hd.rebound (.single (owned.push slot composite)) fun _ => rfl

/-- What is below a new slot is builtin or new, the copy itself included. -/
theorem CopiedSlot.settled {c c' : Context} {i j : SlotId} (h : CopiedSlot c i j c') {k : SlotId}
    {t : Slot} (hk : c.size ≤ k.index) (ht : c'.slot? k = some t) {w : TypeVar}
    (hw : w ∈ t.shape.owned) : c.Settled c' w := by
  cases h with
  | infer slot shape new minted => exact (Derived.of_infer new minted).children hk ht w hw
  | @composite c₁ _ s us slot composite owned room =>
    obtain ⟨hd, hus, hsettled⟩ := owned.derived (Derived.refl c)
    have hmono : ∀ {u : TypeVar}, c.Settled c₁ u → c.Settled (c₁.allocate (s.withOwned us)).2 u := by
      rintro u (hbuiltin | ⟨l, y, hl, hnew, hy, hnode⟩)
      · exact .inl hbuiltin
      · exact .inr ⟨l, y, hl, hnew, slot?_allocate_of_some hy, hnode⟩
    rw [slot?_allocate] at ht
    split at ht
    · cases ht
      have howned : (s.withOwned us).shape.owned = us := Shape.owned_withOwned hus.length_eq.symm
      exact hmono (hsettled w (howned ▸ hw))
    · exact hmono (hd.children hk ht w hw)

end TypeStore.Context
