import TypeStore.Proofs.Copying.Separation

/-!
# What a copy consists of

A copy has the node, binding, declaration, bounds and absorbed nodes of the slot it was copied from,
and its shape up to owned children. A child that leads to an inference variable is replaced by a
fresh node, which leads to a copy of that variable; every other child is as it was. So a copy tells
apart what the original does not: a variable that occurs at two positions gets a node for each.

Children are copied one after the other, each from the store that the one before has left. What a
later copy says of that store is carried back to the first one, since a node that is in use leads to
the same inference variable, or to none, all the way.
-/

namespace TypeStore

/-! ## Slots -/

theorem Shape.owned_bare (shape : Shape) : shape.bare.owned = shape.owned := by
  cases shape with
  | adt a =>
    simp only [bare, owned, Adt.bare, Adt.fieldTypes, List.flatMap_map]
    rfl
  | _ => rfl

namespace Slot

/-- An inference variable under another node: it keeps its state and the location, by which it is
declared, and has the first one absorbed. -/
structure RenameOf (u t : Slot) : Prop where
  shape : t.shape = u.shape
  declaration : ∃ state location, u.shape = .infer state location ∧
    t.declaration = .located location
  binding : t.binding = t.node
  bounds : t.bounds = ∅
  absorbed : t.absorbed = u.absorbed.insert u.node

theorem renameOf_renamedInfer {u : Slot} {state : Inference.State} {location : Location}
    (h : u.shape = .infer state location) (n : NodeId) :
    u.RenameOf (u.renamedInfer n state location) where
  shape := h.symm
  declaration := ⟨state, location, h, rfl⟩
  binding := rfl
  bounds := rfl
  absorbed := rfl

theorem withOwned_owned (s : Slot) : s.withOwned s.shape.owned = s := by
  rw [withOwned, Shape.withOwned_owned, Bounds.ofList_toList]

/-- Names decide about paths only, so slots that agree have the same node and the same children. -/
theorem eq_of_agrees {s t : Slot} (h : t.agrees s = true) :
    t.node = s.node ∧ t.shape.owned = s.shape.owned := by
  have hbare : t.bare = s.bare := eq_of_beq h
  have hnode : t.bare.node = s.bare.node := congrArg Slot.node hbare
  have hshape : t.bare.shape = s.bare.shape := congrArg Slot.shape hbare
  refine ⟨hnode, ?_⟩
  calc t.shape.owned = t.bare.shape.owned := (Shape.owned_bare _).symm
    _ = s.bare.shape.owned := by rw [hshape]
    _ = s.shape.owned := Shape.owned_bare _

theorem agrees_withOwned_iff {s : Slot} {ws : List TypeVar}
    (h : ws.length = s.shape.owned.length) :
    (s.withOwned ws).agrees s = true ↔ ws = s.shape.owned := by
  constructor
  · intro hagrees
    rw [← (eq_of_agrees hagrees).2]
    exact (Shape.owned_withOwned h).symm
  · rintro rfl
    rw [withOwned_owned]
    exact beq_self_eq_true _

end Slot

namespace Context

/-! ## Children -/

/-- A child leads to an inference variable that is not builtin. -/
def LeadsToVar (c : Context) (v : TypeVar) (u : Slot) : Prop :=
  ∃ k, c.typeOf? v.node = some k ∧ c.isBuiltin k = false ∧ c.slot? k = some u ∧ u.isInfer = true

instance (c : Context) (v : TypeVar) : Decidable (∃ u, c.LeadsToVar v u) :=
  decidable_of_iff (∃ k ∈ c.typeOf? v.node, c.isBuiltin k = false ∧ c.IsVar k) (by
    constructor
    · rintro ⟨k, hk, hown, u, hu, hinfer⟩
      exact ⟨u, k, hk, hown, hu, hinfer⟩
    · rintro ⟨u, k, hk, hown, hu, hinfer⟩
      exact ⟨k, hk, hown, u, hu, hinfer⟩)

/-- A node that had no type leads to a new slot, in which an inference variable is renamed. -/
structure FreshVar (c c' : Context) (u : Slot) (n : NodeId) (k : SlotId) : Prop where
  fresh : c.supply.next.raw ≤ n.raw
  untyped : c.typeOf? n = none
  type : c'.typeOf? n = some k
  new : c.size ≤ k.index
  slot : ∃ t, c'.slot? k = some t ∧ t.node = n ∧ u.RenameOf t

/-- What stands in a copy in place of a child of the original. -/
inductive CopiedChild (c c' : Context) (v : TypeVar) : TypeVar → Prop
  | same (other : ∀ u, ¬ c.LeadsToVar v u) : CopiedChild c c' v v
  | fresh {w : TypeVar} {u : Slot} {k : SlotId} (var : c.LeadsToVar v u)
      (fresh : c.FreshVar c' u w.node k) : CopiedChild c c' v w

/-- If the second of two variables is fresh, the first one is older. -/
def Ascends (c : Context) (w x : TypeVar) : Prop :=
  c.supply.next.raw ≤ x.node.raw → w.node.raw < x.node.raw

section Carry

variable {c m c' : Context} {v w : TypeVar} {u : Slot} {n : NodeId} {k : SlotId}

theorem WellFormed.leadsToVar_iff (hc : c.WellFormed) (hno : NoOverflow c c')
    (steps : CopySteps c c') (h : c.Rebound c') (hv : c.Uses v.node) :
    c'.LeadsToVar v u ↔ c.LeadsToVar v u := by
  have hvar := fun k => hc.typeOf?_var_iff hno (hc.size_pos hv) steps h hv (k := k)
  constructor
  · rintro ⟨k, hk, hown, hu, hinfer⟩
    obtain ⟨hk, u', hu', -⟩ := (hvar k).mp ⟨hk, u, hu, hinfer⟩
    have hkept := CopySteps.slot? steps hu'
    rw [hu] at hkept
    cases hkept
    rw [CopySteps.isBuiltin_eq steps] at hown
    exact ⟨k, hk, hown, hu', hinfer⟩
  · rintro ⟨k, hk, hown, hu, hinfer⟩
    obtain ⟨hk, -⟩ := (hvar k).mpr ⟨hk, u, hu, hinfer⟩
    rw [← CopySteps.isBuiltin_eq steps] at hown
    exact ⟨k, hk, hown, CopySteps.slot? steps hu, hinfer⟩

/-- A node that has not been minted has no type. -/
theorem WellFormed.typeOf?_of_next_le (hc : c.WellFormed) (hn : c.supply.next.raw ≤ n.raw) :
    c.typeOf? n = none := by
  cases htype : c.typeOf? n with
  | none => rfl
  | some i => exact absurd (hc.minted htype) (UInt32.not_lt.mpr hn)

theorem Extends.freshVar {state : Inference.State} {location : Location}
    (new : c.Extends m (u.renamedInfer c.supply.next state location)) (hc : c.WellFormed)
    (hshape : u.shape = .infer state location) :
    c.FreshVar m u c.supply.next (nextSlot c.arena) where
  fresh := UInt32.le_refl _
  untyped := hc.typeOf?_of_next_le (UInt32.le_refl _)
  type := new.typeOf?_node
  new := Nat.le_of_eq (index_nextSlot new.room).symm
  slot := ⟨_, new.slot?_nextSlot, rfl, Slot.renameOf_renamedInfer hshape _⟩

theorem FreshVar.mono (h : c.FreshVar m u n k) (steps : CopySteps m c')
    (htype : c'.typeOf? n = some k) : c.FreshVar c' u n k := by
  obtain ⟨t, ht, hnode, hrename⟩ := h.slot
  exact { h with type := htype, slot := ⟨t, CopySteps.slot? steps ht, hnode, hrename⟩ }

/-- What is fresh for a later store is fresh for an earlier one. -/
theorem FreshVar.of_later (h : m.FreshVar c' u n k) (hc : c.WellFormed) (hno : NoOverflow c m)
    (steps : CopySteps c m) : c.FreshVar c' u n k := by
  have hfresh := UInt32.le_trans hno.nodes h.fresh
  exact { h with
    fresh := hfresh
    untyped := hc.typeOf?_of_next_le hfresh
    new := Nat.le_trans (CopySteps.size_le steps) h.new }

theorem CopiedChild.of_later (h : m.CopiedChild c' v w) (hc : c.WellFormed) (hno : NoOverflow c m)
    (steps : CopySteps c m) (hrebound : c.Rebound m) (hv : c.Uses v.node) :
    c.CopiedChild c' v w := by
  cases h with
  | same other =>
    refine .same fun u hu => other u ?_
    exact (hc.leadsToVar_iff hno steps hrebound hv).mpr hu
  | fresh var fresh =>
    exact .fresh ((hc.leadsToVar_iff hno steps hrebound hv).mp var) (fresh.of_later hc hno steps)

theorem CopiedChild.eq_iff (h : c.CopiedChild c' v w) : w = v ↔ ∀ u, ¬ c.LeadsToVar v u := by
  cases h with
  | same other => exact iff_of_true rfl other
  | @fresh _ u k var fresh =>
    refine iff_of_false ?_ fun other => other u var
    rintro rfl
    obtain ⟨l, hl, -⟩ := var
    rw [fresh.untyped] at hl
    cases hl

/-- Two replacements are the same only for the same child, if that leads to no variable. -/
theorem CopiedChild.eq_replacement_iff {v' w' : TypeVar} (h : c.CopiedChild c' v w)
    (h' : c.CopiedChild c' v' w') (hold : v'.node.raw < c.supply.next.raw)
    (hascends : c.Ascends w w') : w = w' ↔ v = v' ∧ ∀ u, ¬ c.LeadsToVar v u := by
  constructor
  · rintro rfl
    cases h' with
    | same other =>
      cases h with
      | same other => exact ⟨rfl, other⟩
      | fresh var fresh => exact absurd hold (UInt32.not_lt.mpr fresh.fresh)
    | fresh var fresh => exact absurd (hascends fresh.fresh) (UInt32.lt_irrefl _)
  · rintro ⟨rfl, other⟩
    rw [h.eq_iff.mpr other, h'.eq_iff.mpr other]

/-- A replacement that is fresh for the first store is fresh for a later one as well, from which
the child was copied. -/
theorem CopiedChild.next_le (h : m.CopiedChild c' v w) (hc : c.WellFormed) (hv : c.Uses v.node)
    (hw : c.supply.next.raw ≤ w.node.raw) : m.supply.next.raw ≤ w.node.raw := by
  cases h with
  | same other => exact absurd (hc.lt_of_uses hv) (UInt32.not_lt.mpr hw)
  | fresh var fresh => exact fresh.fresh

/-- Facts about children that were copied later, carried back. -/
theorem children_of_later (hc : c.WellFormed) (hno : NoOverflow c m) (steps : CopySteps c m)
    (hrebound : c.Rebound m) {rest ws : List TypeVar} (hrest : ∀ v ∈ rest, c.Uses v.node)
    (hchildren : List.Forall₂ (m.CopiedChild c') rest ws) (hascends : ws.Pairwise m.Ascends) :
    List.Forall₂ (c.CopiedChild c') rest ws ∧ ws.Pairwise c.Ascends ∧
      ∀ w ∈ ws, c.supply.next.raw ≤ w.node.raw → m.supply.next.raw ≤ w.node.raw := by
  have hnext : ∀ w ∈ ws, c.supply.next.raw ≤ w.node.raw → m.supply.next.raw ≤ w.node.raw := by
    intro w hw hfresh
    obtain ⟨v, hv, hvw⟩ := exists_mem_left hchildren hw
    exact hvw.next_le hc (hrest v hv) hfresh
  refine ⟨?_, ?_, hnext⟩
  · refine ((List.forall₂_and_left _ _).mpr ⟨hrest, hchildren⟩).imp ?_
    rintro v w ⟨hv, hvw⟩
    exact hvw.of_later hc hno steps hrebound hv
  · refine hascends.imp_of_mem ?_
    intro w x _ hx hwx hfresh
    exact hwx (hnext x hx hfresh)

end Carry

/-- Children are replaced one by one, by fresh nodes in ascending order where they lead to inference
variables and by themselves where they do not. -/
theorem Copied.children {c c' : Context} {vs ws : List TypeVar} (h : Copied c vs ws c')
    (hc : c.WellFormed) (hno : NoOverflow c c') (hvs : ∀ v ∈ vs, c.Uses v.node) :
    List.Forall₂ (c.CopiedChild c') vs ws ∧ ws.Pairwise c.Ascends := by
  induction h with
  | nil => exact ⟨.nil, .nil⟩
  | @shared c c' v rest ws i type builtin tail ih =>
    obtain ⟨hv, hrest⟩ := List.forall_mem_cons.mp hvs
    obtain ⟨hchildren, hascends⟩ := ih hc hno hrest
    refine ⟨.cons (.same ?_) hchildren, .cons ?_ hascends⟩
    · rintro u ⟨k, hk, hown, -⟩
      rw [type] at hk
      cases hk
      rw [builtin] at hown
      cases hown
    · intro x _ hx
      exact UInt32.lt_of_lt_of_le (hc.lt_of_uses hv) hx
  | @infer c m c' v rest ws i s state location type own slot shape new minted tail ih =>
    obtain ⟨hv, hrest⟩ := List.forall_mem_cons.mp hvs
    obtain ⟨hno₁, hno₂⟩ := CopySteps.noOverflow_split new.steps tail.steps.1 hno
    have hm := CopySteps.wellFormed new.steps hc hno₁
    have hhead : Copied c [v] [⟨c.supply.next⟩] m := .infer type own slot shape new minted .nil
    obtain ⟨hlater, hascends⟩ := ih hm hno₂ fun v hv => CopySteps.uses new.steps (hrest v hv)
    obtain ⟨hchildren, hascends, hnext⟩ :=
      children_of_later hc hno₁ new.steps hhead.rebound hrest hlater hascends
    refine ⟨.cons (.fresh (u := s) (k := nextSlot c.arena) ?_ ?_) hchildren, .cons ?_ hascends⟩
    · exact ⟨i, type, own, slot, Slot.isInfer_iff.mpr ⟨state, location, shape⟩⟩
    · -- the other children leave the new inference variable to its node
      have hkept := hm.typeOf?_var_iff hno₂ (Nat.zero_lt_of_lt new.size_lt) tail.steps.1
        tail.rebound (.inl ⟨_, new.typeOf?_node⟩) (k := nextSlot c.arena)
      exact (new.freshVar hc shape).mono tail.steps.1
        (hkept.mpr ⟨new.typeOf?_node, _, new.slot?_nextSlot, rfl⟩).1
    · intro x hx hfresh
      have hlt : c.supply.next.raw < m.supply.next.raw := hm.minted new.typeOf?_node
      exact UInt32.lt_of_lt_of_le hlt (hnext x hx hfresh)
  | @composite c c₁ m c' v rest us ws i s type own slot composite owned new tail ihOwned ih =>
    obtain ⟨hv, hrest⟩ := List.forall_mem_cons.mp hvs
    have hsteps := owned.steps.1.trans new.steps
    obtain ⟨hno₁, hno₂⟩ := CopySteps.noOverflow_split hsteps tail.steps.1 hno
    have hm := CopySteps.wellFormed hsteps hc hno₁
    have hhead : Copied c [v] [⟨s.node⟩] m := .composite type own slot composite owned new .nil
    obtain ⟨hlater, hascends⟩ := ih hm hno₂ fun v hv => CopySteps.uses hsteps (hrest v hv)
    obtain ⟨hchildren, hascends, -⟩ :=
      children_of_later hc hno₁ hsteps hhead.rebound hrest hlater hascends
    -- the slot was made for the node of the child
    obtain ⟨s', hs', hnode⟩ := hc.made type
    rw [slot] at hs'
    cases hs'
    rw [hnode]
    refine ⟨.cons (.same ?_) hchildren, .cons ?_ hascends⟩
    · rintro u ⟨k, hk, -, hu, hinfer⟩
      rw [type] at hk
      cases hk
      rw [slot] at hu
      cases hu
      rw [composite] at hinfer
      cases hinfer
    · intro x _ hx
      exact UInt32.lt_of_lt_of_le (hc.lt_of_uses hv) hx

/-! ## Whole copies -/

section Whole

variable {c c' : Context} {i j : SlotId} {s : Slot}

/-- A slot that is no inference variable is copied with its children replaced. -/
theorem CopiedSlot.children (h : CopiedSlot c i j c') (hc : c.WellFormed) (hno : NoOverflow c c')
    (hs : c.slot? i = some s) (hcomposite : s.isInfer = false) :
    ∃ ws, c'.slot? j = some (s.withOwned ws) ∧
      List.Forall₂ (c.CopiedChild c') s.shape.owned ws ∧ ws.Pairwise c.Ascends := by
  cases h with
  | @infer _ _ u state location slot shape new minted =>
    rw [hs] at slot
    cases slot
    have hinfer : s.isInfer = true := Slot.isInfer_iff.mpr ⟨state, location, shape⟩
    rw [hcomposite] at hinfer
    cases hinfer
  | @composite c₁ _ u us slot composite owned room =>
    rw [hs] at slot
    cases slot
    have hpush : CopySteps c₁ (c₁.allocate (s.withOwned us)).2 := .single (owned.push hs composite)
    obtain ⟨hno₁, -⟩ := CopySteps.noOverflow_split owned.steps.1 hpush hno
    obtain ⟨hchildren, hascends⟩ := owned.children hc hno₁ fun v hv => uses_of_mem_owned hs hv
    refine ⟨us, slot?_allocate_nextSlot room _, hchildren.imp ?_, hascends⟩
    intro v w hvw
    cases hvw with
    | same other => exact .same other
    | fresh var fresh => exact .fresh var (fresh.mono hpush fresh.type)

/-- An inference variable is copied under the node that comes next. -/
theorem CopiedSlot.freshVar (h : CopiedSlot c i j c') (hc : c.WellFormed)
    (hs : c.slot? i = some s) (hinfer : s.isInfer = true) :
    c.FreshVar c' s c.supply.next j := by
  cases h with
  | infer slot shape new minted =>
    rw [hs] at slot
    cases slot
    exact new.freshVar hc shape
  | composite slot composite owned room =>
    rw [hs] at slot
    cases slot
    rw [hinfer] at composite
    cases composite

/-- The node that comes next takes over the location recorded for the node of the variable. -/
theorem location?_copy_infer (hs : c.slot? i = some s) (hinfer : s.isInfer = true) :
    (c.copy i).2.location? c.supply.next
      = (c.location? s.node).or (c.location? c.supply.next) := by
  obtain ⟨state, location, hshape⟩ := Slot.isInfer_iff.mp hinfer
  have hslot : Copying.slot i (.start c) = .ok s (.start c) := Copying.slot_of_slot? (c := c) hs
  rw [copy, finish, EStateM.run, copySlot_of_infer hslot hshape]
  unfold location?
  cases hrecorded : c.facts.locations[s.node]? with
  | some recorded =>
    simp only [Copying.renameInfer, Draft.start, hrecorded, Option.some_or]
    exact (NodeMap.getElem?_insert_eq _ _ _ _).trans (if_pos rfl)
  | none =>
    simp only [Copying.renameInfer, Draft.start, hrecorded, Option.none_or]
    rfl

end Whole

section Lists

variable {c c' : Context} {vs ws : List TypeVar}

theorem eq_iff_of_children (h : List.Forall₂ (c.CopiedChild c') vs ws) :
    ws = vs ↔ ∀ v ∈ vs, ∀ u, ¬ c.LeadsToVar v u := by
  induction h with
  | nil => simp
  | cons head _ ih => rw [List.cons.injEq, head.eq_iff, ih, List.forall_mem_cons]

theorem exists_getElem?_of_children (h : List.Forall₂ (c.CopiedChild c') vs ws) {p : Nat}
    {v : TypeVar} (hp : vs[p]? = some v) : ∃ w, ws[p]? = some w ∧ c.CopiedChild c' v w := by
  induction h generalizing p with
  | nil => cases hp
  | cons head _ ih =>
    cases p with
    | zero =>
      cases hp
      exact ⟨_, rfl, head⟩
    | succ p => exact ih hp

/-- Two positions have the same replacement only if they hold the same child, which leads to no
variable. -/
theorem getElem?_eq_iff_of_children (hvs : ∀ v ∈ vs, v.node.raw < c.supply.next.raw)
    (h : List.Forall₂ (c.CopiedChild c') vs ws) (hascends : ws.Pairwise c.Ascends) {p q : Nat}
    {v v' : TypeVar} (hp : vs[p]? = some v) (hq : vs[q]? = some v') :
    ws[p]? = ws[q]? ↔ p = q ∨ v = v' ∧ ∀ u, ¬ c.LeadsToVar v u := by
  obtain ⟨w, hw, hvw⟩ := exists_getElem?_of_children h hp
  obtain ⟨w', hw', hvw'⟩ := exists_getElem?_of_children h hq
  have hv := hvs v (List.mem_of_getElem? hp)
  have hv' := hvs v' (List.mem_of_getElem? hq)
  have hpair : ∀ {r r' : Nat} {x x' : TypeVar}, r < r' → ws[r]? = some x → ws[r']? = some x' →
      c.Ascends x x' := by
    intro r r' x x' hlt hx hx'
    obtain ⟨hr, rfl⟩ := List.getElem?_eq_some_iff.mp hx
    obtain ⟨hr', rfl⟩ := List.getElem?_eq_some_iff.mp hx'
    exact List.pairwise_iff_getElem.mp hascends r r' hr hr' hlt
  rw [hw, hw', Option.some.injEq]
  -- the fresh nodes ascend, so the later position decides
  rcases Nat.lt_trichotomy p q with hlt | rfl | hgt
  · rw [hvw.eq_replacement_iff hvw' hv' (hpair hlt hw hw')]
    simp [Nat.ne_of_lt hlt]
  · rw [hw] at hw'
    cases hw'
    simp
  · rw [eq_comm, hvw'.eq_replacement_iff hvw hv (hpair hgt hw' hw)]
    constructor
    · rintro ⟨rfl, other⟩
      exact .inr ⟨rfl, other⟩
    · rintro (heq | ⟨rfl, other⟩)
      · exact absurd heq (Nat.ne_of_gt hgt)
      · exact ⟨rfl, other⟩

end Lists

/-- A copy is a new slot that differs from the original in inference variables only. If the original
is one, the copy is another one, under a fresh node that takes over the recorded location. If not,
the copy has the same node, binding, declaration, bounds and absorbed nodes, and the same shape up
to its owned children. Each of these is the same as in the original or, where that leads to an
inference variable that is not builtin, a fresh node with a copy of the variable. So the two are
equal if neither the original nor an owned child is such a variable. -/
theorem copy_differs_in_variables_only {c c' : Context} {i j : SlotId} {s : Slot}
    (hc : c.WellFormed) (hno : NoOverflow c c') (hs : c.slot? i = some s)
    (hcopy : c.copy i = (.ok j, c')) :
    c.size ≤ j.index ∧ ∃ t, c'.slot? j = some t ∧
      (s.isInfer = false →
        t.node = s.node ∧ t.binding = s.binding ∧ t.declaration = s.declaration ∧
        t.bounds = s.bounds ∧ t.absorbed = s.absorbed ∧
        t.shape.withOwned s.shape.owned = s.shape ∧
        List.Forall₂ (c.CopiedChild c') s.shape.owned t.shape.owned) ∧
      (s.isInfer = true →
        c.FreshVar c' s t.node j ∧
        c'.location? t.node = (c.location? s.node).or (c.location? t.node)) ∧
      (t.agrees s = true ↔
        s.isInfer = false ∧ ∀ v ∈ s.shape.owned, ∀ u, ¬ c.LeadsToVar v u) := by
  have hcopied := copied_copy hcopy hno.slots
  refine ⟨hcopied.size_le_index, ?_⟩
  cases hinfer : s.isInfer with
  | true =>
    have hfresh := hcopied.freshVar hc hs hinfer
    have hlocation := location?_copy_infer hs hinfer
    rw [hcopy] at hlocation
    obtain ⟨t, ht, hnode, -⟩ := hfresh.slot
    rw [← hnode] at hfresh hlocation
    refine ⟨t, ht, by simp, fun _ => ⟨hfresh, hlocation⟩, iff_of_false ?_ (by simp)⟩
    intro hagrees
    have hold := (hc.below hs).node
    rw [← (Slot.eq_of_agrees hagrees).1] at hold
    exact UInt32.not_lt.mpr hfresh.fresh hold
  | false =>
    obtain ⟨ws, ht, hchildren, -⟩ := hcopied.children hc hno hs hinfer
    have hlength := hchildren.length_eq.symm
    have howned : (s.withOwned ws).shape.owned = ws := Shape.owned_withOwned hlength
    refine ⟨s.withOwned ws, ht, fun _ => ⟨rfl, rfl, rfl, Bounds.ofList_toList _, rfl, ?_, ?_⟩,
      by simp, ?_⟩
    · exact (Shape.withOwned_withOwned hlength rfl).trans (Shape.withOwned_owned _)
    · rw [howned]
      exact hchildren
    · rw [Slot.agrees_withOwned_iff hlength, eq_iff_of_children hchildren]
      simp

/-- Makes an inference variable with a recorded location, an empty tuple and a function that has
the tuple as its second and its third parameter and the variable as its first one and its result. -/
def repeatChildren : List Command :=
  [.mint, .register (.new ⟨45⟩ (.infer (.fresh .general) .unknown)),
    .recordLocation ⟨45⟩ (.source 0 3 5),
    .mint, .register (.new ⟨46⟩ .unit),
    .mint, .register (.new ⟨47⟩ (.function "f" [⟨⟨1⟩, ⟨⟨45⟩⟩⟩, ⟨⟨2⟩, ⟨⟨46⟩⟩⟩, ⟨⟨3⟩, ⟨⟨46⟩⟩⟩]
      ⟨⟨45⟩⟩ .none))]

/-- A store with a function whose children occur twice each. -/
def repeatedChildren : Context := (new .standard).run repeatChildren

theorem reached_repeatedChildren : repeatedChildren.Reached := by
  refine ⟨.standard, repeatChildren, ?_, ⟨trivial, ?_, show Slot.Below _ _ from ?_, ?_, trivial, ?_,
    trivial, ?_, show Slot.Below _ _ from ?_, ?_, trivial, ?_, show Slot.Below _ _ from ?_, ?_,
    trivial⟩, rfl⟩
  all_goals decide +kernel

/-- The children of the function, of which those at both ends lead to a variable and the others do
not, and the children of its copy. -/
theorem repeatedChildren_function :
    (∃ s, repeatedChildren.slot? ⟨21⟩ = some s ∧ s.isInfer = false ∧
      s.shape.owned = [⟨⟨45⟩⟩, ⟨⟨46⟩⟩, ⟨⟨46⟩⟩, ⟨⟨45⟩⟩]) ∧
    ((∃ u, repeatedChildren.LeadsToVar ⟨⟨45⟩⟩ u) ∧
      ¬ ∃ u, repeatedChildren.LeadsToVar ⟨⟨46⟩⟩ u) ∧
    repeatedChildren.copy ⟨21⟩ = (.ok ⟨26⟩, (repeatedChildren.copy ⟨21⟩).2) ∧
    NoOverflow repeatedChildren (repeatedChildren.copy ⟨21⟩).2 ∧
    ∃ t, (repeatedChildren.copy ⟨21⟩).2.slot? ⟨26⟩ = some t ∧
      t.shape.owned = [⟨⟨48⟩⟩, ⟨⟨46⟩⟩, ⟨⟨46⟩⟩, ⟨⟨49⟩⟩] := by
  have hview : (repeatedChildren.slot? ⟨21⟩).map (fun s => (s.isInfer, s.shape.owned))
      = some (false, [⟨⟨45⟩⟩, ⟨⟨46⟩⟩, ⟨⟨46⟩⟩, ⟨⟨45⟩⟩]) := by decide +kernel
  have hcopied : ((repeatedChildren.copy ⟨21⟩).2.slot? ⟨26⟩).map (fun t => t.shape.owned)
      = some [⟨⟨48⟩⟩, ⟨⟨46⟩⟩, ⟨⟨46⟩⟩, ⟨⟨49⟩⟩] := by decide +kernel
  refine ⟨?_, by decide +kernel, Prod.fst_eq_iff.mp (by decide +kernel), by decide +kernel,
    Option.map_eq_some_iff.mp hcopied⟩
  obtain ⟨s, hs, hpair⟩ := Option.map_eq_some_iff.mp hview
  exact ⟨s, hs, Prod.mk.inj hpair⟩

/-- The function is copied with fresh nodes, so the copy is not equal to it; the copy of the
variable has the location of the variable. -/
theorem repeatedChildren_copies :
    repeatedChildren.WellFormed ∧
      (∃ s t, repeatedChildren.slot? ⟨21⟩ = some s ∧
        (repeatedChildren.copy ⟨21⟩).2.slot? ⟨26⟩ = some t ∧
        t.shape.withOwned s.shape.owned = s.shape ∧
        List.Forall₂ (repeatedChildren.CopiedChild (repeatedChildren.copy ⟨21⟩).2) s.shape.owned
          t.shape.owned ∧
        t.agrees s = false) ∧
      ∃ t, (repeatedChildren.copy ⟨19⟩).2.slot? ⟨22⟩ = some t ∧
        (repeatedChildren.copy ⟨19⟩).2.location? t.node = some (.source 0 3 5) := by
  have hwf := Reached.wellFormed reached_repeatedChildren
  refine ⟨hwf, ?_, ?_⟩
  · obtain ⟨⟨s, hs, hinfer, howned⟩, ⟨⟨u, hu⟩, -⟩, hcopy, hno, -⟩ := repeatedChildren_function
    obtain ⟨-, t, ht, hcomposite, -, hagrees⟩ := copy_differs_in_variables_only hwf hno hs hcopy
    obtain ⟨-, -, -, -, -, hshape, hchildren⟩ := hcomposite hinfer
    refine ⟨s, t, hs, ht, hshape, hchildren, Bool.eq_false_iff.mpr ?_⟩
    intro h
    exact (hagrees.mp h).2 ⟨⟨45⟩⟩ (by simp [howned]) u hu
  · have hview : (repeatedChildren.slot? ⟨19⟩).map (fun s => (s.isInfer, s.node))
        = some (true, ⟨45⟩) := by decide +kernel
    have hok : (repeatedChildren.copy ⟨19⟩).1 = .ok ⟨22⟩ := by decide +kernel
    have hno : NoOverflow repeatedChildren (repeatedChildren.copy ⟨19⟩).2 := by decide +kernel
    have hlocation : repeatedChildren.location? ⟨45⟩ = some (.source 0 3 5) := by decide +kernel
    obtain ⟨s, hs, hpair⟩ := Option.map_eq_some_iff.mp hview
    obtain ⟨hinfer, hnode⟩ := Prod.mk.inj hpair
    obtain ⟨-, t, ht, -, hfresh, -⟩ := copy_differs_in_variables_only hwf hno hs
      (Prod.fst_eq_iff.mp hok)
    refine ⟨t, ht, ?_⟩
    rw [(hfresh hinfer).2, hnode, hlocation, Option.some_or]

/-- In the copy of a slot that is no inference variable, two positions hold the same child if they
held the same in the original, unless that leads to an inference variable that is not builtin: such
a child is replaced by another node at every position. -/
theorem copy_shares_all_but_variables {c c' : Context} {i j : SlotId} {s : Slot}
    (hc : c.WellFormed) (hno : NoOverflow c c') (hs : c.slot? i = some s)
    (hcomposite : s.isInfer = false) (hcopy : c.copy i = (.ok j, c')) :
    ∃ t, c'.slot? j = some t ∧ t.shape = s.shape.withOwned t.shape.owned ∧
      t.shape.owned.length = s.shape.owned.length ∧
      ∀ (p q : Nat) (v v' : TypeVar), s.shape.owned[p]? = some v → s.shape.owned[q]? = some v' →
        (t.shape.owned[p]? = t.shape.owned[q]? ↔ p = q ∨ v = v' ∧ ∀ u, ¬ c.LeadsToVar v u) := by
  have hcopied := copied_copy hcopy hno.slots
  obtain ⟨ws, ht, hchildren, hascends⟩ := hcopied.children hc hno hs hcomposite
  have howned : (s.withOwned ws).shape.owned = ws := Shape.owned_withOwned hchildren.length_eq.symm
  refine ⟨s.withOwned ws, ht, ?_, ?_, ?_⟩
  · rw [howned]
    rfl
  · rw [howned, hchildren.length_eq]
  · intro p q v v' hp hq
    rw [howned]
    exact getElem?_eq_iff_of_children
      (fun v hv => hc.lt_of_uses (uses_of_mem_owned hs hv)) hchildren hascends hp hq

/-- The second and the third parameter of the function are the same in the copy as well, the first
parameter and the result are not. -/
theorem repeatedChildren_copy_shares :
    repeatedChildren.WellFormed ∧ ∃ t, (repeatedChildren.copy ⟨21⟩).2.slot? ⟨26⟩ = some t ∧
      t.shape.owned[1]? = t.shape.owned[2]? ∧ t.shape.owned[0]? ≠ t.shape.owned[3]? := by
  have hwf := Reached.wellFormed reached_repeatedChildren
  obtain ⟨⟨s, hs, hinfer, howned⟩, ⟨hvar, hother⟩, hcopy, hno, -⟩ := repeatedChildren_function
  obtain ⟨t, ht, -, -, hshared⟩ := copy_shares_all_but_variables hwf hno hs hinfer hcopy
  rw [howned] at hshared
  refine ⟨hwf, t, ht, ?_, ?_⟩
  · exact (hshared 1 2 _ _ rfl rfl).mpr (.inr ⟨rfl, not_exists.mp hother⟩)
  · intro heq
    rcases (hshared 0 3 _ _ rfl rfl).mp heq with hpos | ⟨-, hnone⟩
    · cases hpos
    · exact not_exists.mpr hnone hvar

/-- The first parameter and the result of the function are the same variable, and those of its copy
are two. -/
theorem repeatedChildren_copy_separates :
    repeatedChildren.WellFormed ∧ (repeatedChildren.copy ⟨21⟩).1 = .ok ⟨26⟩ ∧
      ¬ (∀ (s t : Slot) (p q : Nat) (v : TypeVar),
        repeatedChildren.slot? ⟨21⟩ = some s → s.isInfer = false →
        (repeatedChildren.copy ⟨21⟩).2.slot? ⟨26⟩ = some t →
        s.shape.owned[p]? = some v → s.shape.owned[q]? = some v →
        t.shape.owned[p]? = t.shape.owned[q]?) := by
  obtain ⟨⟨s, hs, hinfer, howned⟩, -, hcopy, -, t, ht, howned'⟩ := repeatedChildren_function
  refine ⟨Reached.wellFormed reached_repeatedChildren, Prod.fst_eq_iff.mpr hcopy, ?_⟩
  intro h
  have heq := h s t 0 3 ⟨⟨45⟩⟩ hs hinfer ht (by rw [howned]; rfl) (by rw [howned]; rfl)
  rw [howned'] at heq
  cases heq

end Context

end TypeStore
