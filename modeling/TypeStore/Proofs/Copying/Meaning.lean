import TypeStore.Proofs.Copying.Copied
import TypeStore.Proofs.Resemblance
import TypeStore.Proofs.Session

/-!
# Copies mean what they are copies of

The store after a copy refines the store before it. Every child that is copied becomes the type
of its node, so types that were there before lead to new slots; but the new slot looks like the
old one, up to inference variables that are in the same state. Refinement is transitive, and one
child after the other is copied from a store that refines the first.
-/

namespace TypeStore.Context

/-! ## Refinement is transitive -/

section Transitive

variable {c m c' : Context}

/-- Inference variables keep their state. -/
def KeepsInfer (m c' : Context) : Prop :=
  ∀ {n t}, m.slotOf? n = some t → t.isInfer = true →
    ∃ t', c'.slotOf? n = some t' ∧ t'.shape = t.shape

theorem Refines.keepsInfer (h : m.Refines c') : m.KeepsInfer c' := by
  intro n t ht hinfer
  obtain ⟨t', ht', htt'⟩ := h.typed ht
  exact ⟨t', ht', htt'.shape_eq_of_infer hinfer⟩

theorem StandsFor.mono (hkeep : m.KeepsInfer c') {v w : TypeVar} (h : c.StandsFor m v w) :
    c.StandsFor c' v w := by
  rcases h with rfl | ⟨s, t, hs, ht, hinfer, hshape⟩
  · exact .inl rfl
  · have ht' : t.isInfer = true := (Slot.isInfer_congr hshape).trans hinfer
    obtain ⟨u, hu, hushape⟩ := hkeep ht ht'
    exact .inr ⟨s, u, hs, hu, hinfer, hushape.trans hshape⟩

theorem Resembles.mono (hkeep : m.KeepsInfer c') {s t : Slot} (h : c.Resembles m s t) :
    c.Resembles c' s t := by
  obtain ⟨⟨vars, hvars, hshape⟩, hnamed⟩ := h
  exact ⟨⟨vars, hvars.imp fun _ _ hvw => hvw.mono hkeep, hshape⟩, hnamed⟩

theorem StandsFor.trans (hc : c.WellFormed) (h : c.Refines m) (h' : m.Refines c')
    {v w x : TypeVar} (hv : v.node.raw < c.supply.next.raw) (hvw : c.StandsFor m v w)
    (hwx : m.StandsFor c' w x) : c.StandsFor c' v x := by
  rcases hwx with rfl | ⟨t, u, ht, hu, hinfer, hshape⟩
  · exact hvw.mono h'.keepsInfer
  · refine .inr ?_
    rcases hvw with rfl | ⟨s, t', hs, ht', hinfer', hshape'⟩
    · -- the variable is the same up to here, so it led to an inference variable from the start
      cases hi : c.typeOf? w.node with
      | none =>
        rw [slotOf?, h.untyped hv hi] at ht
        cases ht
      | some i =>
        obtain ⟨s, hs, -⟩ := hc.made hi
        have hs : c.slotOf? w.node = some s := slotOf?_eq_some_iff.mpr ⟨i, hi, hs⟩
        obtain ⟨t', ht', hst⟩ := h.typed hs
        rw [ht] at ht'
        cases ht'
        have hsinfer : s.isInfer = true := hst.isInfer_eq.symm.trans hinfer
        exact ⟨s, u, hs, hu, hsinfer, hshape.trans (hst.shape_eq_of_infer hsinfer)⟩
    · rw [ht'] at ht
      cases ht
      exact ⟨s, u, hs, hu, hinfer', hshape.trans hshape'⟩

theorem standsFor_trans_all (hc : c.WellFormed) (h : c.Refines m) (h' : m.Refines c')
    {vs ws xs : List TypeVar} (hvs : ∀ v ∈ vs, v.node.raw < c.supply.next.raw)
    (hvw : List.Forall₂ (c.StandsFor m) vs ws) (hwx : List.Forall₂ (m.StandsFor c') ws xs) :
    List.Forall₂ (c.StandsFor c') vs xs := by
  induction hvw generalizing xs with
  | nil =>
    cases hwx
    exact .nil
  | cons head _ ih =>
    cases hwx with
    | cons head' tail' =>
      exact .cons (head.trans hc h h' (hvs _ List.mem_cons_self) head')
        (ih (fun v hv => hvs v (List.mem_cons_of_mem _ hv)) tail')

theorem Resembles.trans (hc : c.WellFormed) (h : c.Refines m) (h' : m.Refines c') {s t u : Slot}
    (hs : s.Below c.supply.next) (hst : c.Resembles m s t) (htu : m.Resembles c' t u) :
    c.Resembles c' s u := by
  have hinfer := hst.isInfer_eq
  obtain ⟨⟨vars, hvars, hshape⟩, hnamed⟩ := hst
  obtain ⟨⟨vars', hvars', hshape'⟩, hnamed'⟩ := htu
  have hlength := hvars.length_eq.symm
  rw [hshape, Shape.owned_withOwned hlength] at hvars'
  constructor
  · refine ⟨vars', ?_, ?_⟩
    · exact standsFor_trans_all hc h h'
        (fun v hv => hs.child (Shape.mem_children_of_mem_owned hv)) hvars hvars'
    · rw [hshape', hshape, Shape.withOwned_withOwned hlength]
      rw [← hvars'.length_eq, hlength]
  · intro hcomposite
    obtain ⟨hnode, hbounds⟩ := hnamed hcomposite
    obtain ⟨hnode', hbounds'⟩ := hnamed' (hinfer.trans hcomposite)
    exact ⟨hnode'.trans hnode, hbounds'.trans hbounds⟩

theorem Refines.trans (hc : c.WellFormed) (hno : NoOverflow c m) (h : c.Refines m)
    (h' : m.Refines c') : c.Refines c' where
  typed {n s} hs := by
    obtain ⟨t, ht, hst⟩ := h.typed hs
    obtain ⟨u, hu, htu⟩ := h'.typed ht
    obtain ⟨i, -, hslot⟩ := slotOf?_eq_some_iff.mp hs
    exact ⟨u, hu, hst.trans hc h h' (hc.below hslot) htu⟩
  untyped hn hnone := h'.untyped (UInt32.lt_of_lt_of_le hn hno.nodes) (h.untyped hn hnone)
  config := h'.config.trans h.config

end Transitive

/-! ## One child -/

section Child

variable {c m : Context} {t : Slot}

/-- Slots and types that are kept refine themselves. -/
theorem Refines.of_kept {c' : Context}
    (hkept : ∀ {n s}, c.slotOf? n = some s → c'.slotOf? n = some s)
    (huntyped : ∀ {n}, n.raw < c.supply.next.raw → c.typeOf? n = none → c'.typeOf? n = none)
    (hconfig : c'.config = c.config) : c.Refines c' where
  typed {_ s} hs := ⟨s, hkept hs, .refl c c' s⟩
  untyped := huntyped
  config := hconfig

theorem Refines.refl (c : Context) : c.Refines c :=
  .of_kept id (fun _ h => h) rfl

theorem slotOf?_allocate {n : NodeId} {s t : Slot} (hs : c.slotOf? n = some s) :
    (c.allocate t).2.slotOf? n = some s := by
  obtain ⟨i, hi, hs⟩ := slotOf?_eq_some_iff.mp hs
  exact slotOf?_eq_some_iff.mpr ⟨i, hi, slot?_allocate_of_some hs⟩

/-- A slot that no node has changes nothing. -/
theorem refines_allocate (c : Context) (t : Slot) : c.Refines (c.allocate t).2 :=
  .of_kept slotOf?_allocate (fun _ h => h) rfl

/-- A fresh node with a new slot is the only change that copying an inference variable makes. -/
theorem Extends.refines_of_fresh (h : c.Extends m t) (hc : c.WellFormed)
    (hnode : t.node = c.supply.next) : c.Refines m := by
  have hne : ∀ {n : NodeId}, n.raw < c.supply.next.raw → t.node ≠ n := by
    rintro n hn rfl
    rw [hnode] at hn
    exact UInt32.lt_irrefl _ hn
  refine .of_kept ?_ ?_ (CopySteps.frame h.steps).1
  · intro n s hs
    obtain ⟨i, hi, hs⟩ := slotOf?_eq_some_iff.mp hs
    refine slotOf?_eq_some_iff.mpr ⟨i, ?_, CopySteps.slot? h.steps hs⟩
    rw [h.types, if_neg (hne (hc.minted hi)), hi]
  · intro n hn hnone
    rw [h.types, if_neg (hne hn), hnone]

theorem Extends.slotOf?_eq (h : c.Extends m t) (n : NodeId) :
    t.node = n ∧ m.slotOf? n = some t ∨ t.node ≠ n ∧ ∀ s, c.slotOf? n = some s →
      m.slotOf? n = some s := by
  by_cases hn : t.node = n
  · subst hn
    exact .inl ⟨rfl, slotOf?_eq_some_iff.mpr ⟨_, h.typeOf?_node, h.slot?_nextSlot⟩⟩
  · refine .inr ⟨hn, ?_⟩
    intro s hs
    obtain ⟨i, hi, hs⟩ := slotOf?_eq_some_iff.mp hs
    refine slotOf?_eq_some_iff.mpr ⟨i, ?_, CopySteps.slot? h.steps hs⟩
    rw [h.types, if_neg hn, hi]

/-- A copied child becomes the type of its node. -/
theorem Refines.adopt {c₁ : Context} (h : c.Refines c₁) {s : Slot} {us : List TypeVar}
    (hs : c.slotOf? s.node = some s) (hcomposite : s.isInfer = false)
    (hus : List.Forall₂ (c.StandsFor c₁) s.shape.owned us) (new : c₁.Extends m (s.withOwned us)) :
    c.Refines m := by
  have hnode : (s.withOwned us).node = s.node := rfl
  -- the node leads to a slot like `s`, so no inference variable loses its type
  have hkeep : c₁.KeepsInfer m := by
    intro n t ht hinfer
    rcases new.slotOf?_eq n with ⟨rfl, -⟩ | ⟨-, hkept⟩
    · obtain ⟨t', ht', hst⟩ := h.typed hs
      rw [hnode, ht'] at ht
      cases ht
      rw [hst.isInfer_eq, hcomposite] at hinfer
      cases hinfer
    · exact ⟨t, hkept t ht, rfl⟩
  constructor
  · intro n s' hs'
    rcases new.slotOf?_eq n with ⟨rfl, hnew⟩ | ⟨-, hkept⟩
    · rw [hnode, hs] at hs'
      cases hs'
      refine ⟨s.withOwned us, hnew, ?_, ?_⟩
      · exact ⟨us, hus.imp fun _ _ hvw => hvw.mono hkeep, rfl⟩
      · intro _
        exact ⟨rfl, Bounds.ofList_toList _⟩
    · obtain ⟨t, ht, hst⟩ := h.typed hs'
      exact ⟨t, hkept t ht, hst.mono hkeep⟩
  · intro n hn hnone
    obtain ⟨i, hi, -⟩ := slotOf?_eq_some_iff.mp hs
    rw [new.types, if_neg]
    · exact h.untyped hn hnone
    · rintro rfl
      rw [hnode, hi] at hnone
      cases hnone
  · exact (CopySteps.frame new.steps).1.trans h.config

end Child

/-! ## Whole copies -/

/-- After children are copied the store refines the one before, and what replaces a child can
stand for it. -/
theorem Copied.refines {c c' : Context} {vs ws : List TypeVar} (h : Copied c vs ws c')
    (hc : c.WellFormed) (hno : NoOverflow c c') (hvs : ∀ v ∈ vs, v.node.raw < c.supply.next.raw) :
    c.Refines c' ∧ List.Forall₂ (c.StandsFor c') vs ws := by
  -- every rule goes through a store between the two, so refinement is put together from parts
  induction h with
  | nil => exact ⟨.refl _, .nil⟩
  | @shared c c' v rest ws i type builtin tail ih =>
    obtain ⟨hrefines, hrest⟩ := ih hc hno fun u hu => hvs u (List.mem_cons_of_mem _ hu)
    exact ⟨hrefines, .cons (.inl rfl) hrest⟩
  | @infer c m c' v rest ws i s state location type own slot shape new minted tail ih =>
    obtain ⟨hno₁, hno₂⟩ := CopySteps.noOverflow_split new.steps tail.steps.1 hno
    have hfirst := new.refines_of_fresh hc rfl
    have hrest' : ∀ u ∈ rest, u.node.raw < c.supply.next.raw := fun u hu =>
      hvs u (List.mem_cons_of_mem _ hu)
    obtain ⟨hrefines, hrest⟩ := ih (CopySteps.wellFormed new.steps hc hno₁) hno₂ fun u hu =>
      UInt32.lt_of_lt_of_le (hrest' u hu) hno₁.nodes
    have hstands : c.StandsFor m v ⟨c.supply.next⟩ := by
      refine .inr ⟨s, s.renamedInfer c.supply.next state location, ?_, ?_, ?_, shape.symm⟩
      · exact slotOf?_eq_some_iff.mpr ⟨i, type, slot⟩
      · exact slotOf?_eq_some_iff.mpr ⟨_, new.typeOf?_node, new.slot?_nextSlot⟩
      · exact Slot.isInfer_iff.mpr ⟨state, location, shape⟩
    refine ⟨hfirst.trans hc hno₁ hrefines, .cons (hstands.mono hrefines.keepsInfer) ?_⟩
    exact standsFor_trans_all hc hfirst hrefines hrest'
      (List.forall₂_same.mpr fun _ _ => .inl rfl) hrest
  | @composite c c₁ m c' v rest us ws i s type own slot composite owned new tail ihOwned ih =>
    have hsteps := owned.steps.1.trans new.steps
    obtain ⟨hno₁, -⟩ :=
      CopySteps.noOverflow_split owned.steps.1 (new.steps.trans tail.steps.1) hno
    obtain ⟨hno₂, hno₃⟩ := CopySteps.noOverflow_split hsteps tail.steps.1 hno
    obtain ⟨hfirst, hus⟩ := ihOwned hc hno₁ fun u hu =>
      (hc.below slot).child (Shape.mem_children_of_mem_owned hu)
    -- the slot was made for the node of the child, so the copy replaces it there
    obtain ⟨s', hs', hnode⟩ := hc.made type
    rw [slot] at hs'
    cases hs'
    have hadopt := hfirst.adopt (slotOf?_eq_some_iff.mpr ⟨i, hnode ▸ type, slot⟩) composite hus new
    have hrest' : ∀ u ∈ rest, u.node.raw < c.supply.next.raw := fun u hu =>
      hvs u (List.mem_cons_of_mem _ hu)
    obtain ⟨hrefines, hrest⟩ := ih (CopySteps.wellFormed hsteps hc hno₂) hno₃
      fun u hu => UInt32.lt_of_lt_of_le (hrest' u hu) hno₂.nodes
    refine ⟨hadopt.trans hc hno₂ hrefines, .cons (.inl (congrArg TypeVar.mk hnode)) ?_⟩
    exact standsFor_trans_all hc hadopt hrefines hrest'
      (List.forall₂_same.mpr fun _ _ => .inl rfl) hrest

/-- The copy of a slot looks like it. -/
theorem CopiedSlot.refines {c c' : Context} {i j : SlotId} (h : CopiedSlot c i j c')
    (hc : c.WellFormed) (hno : NoOverflow c c') :
    c.Refines c' ∧ ∃ s t, c.slot? i = some s ∧ c'.slot? j = some t ∧ c.Resembles c' s t := by
  cases h with
  | @infer _ _ s state location slot shape new minted =>
    refine ⟨new.refines_of_fresh hc rfl, s, _, slot, new.slot?_nextSlot, ?_⟩
    exact .of_infer (Slot.isInfer_iff.mpr ⟨state, location, shape⟩) shape.symm
  | @composite c₁ _ s us slot composite owned room =>
    obtain ⟨hno₁, -⟩ :=
      CopySteps.noOverflow_split owned.steps.1 (.single (owned.push slot composite)) hno
    obtain ⟨hfirst, hus⟩ := owned.refines hc hno₁ fun u hu =>
      (hc.below slot).child (Shape.mem_children_of_mem_owned hu)
    have hpushed := refines_allocate c₁ (s.withOwned us)
    refine ⟨hfirst.trans hc hno₁ hpushed, s, s.withOwned us, slot,
      slot?_allocate_nextSlot room _, ?_, ?_⟩
    · exact ⟨us, hus.imp fun _ _ hvw => hvw.mono hpushed.keepsInfer, rfl⟩
    · intro _
      exact ⟨rfl, Bounds.ofList_toList _⟩

/-- A copy has the text of what it was copied from and is concrete if that was, and so it is with
every slot that was there before. -/
theorem copy_keeps_texts_and_concreteness {c c' : Context} {i j : SlotId} (hc : c.WellFormed)
    (hno : NoOverflow c c') (hcopy : c.copy i = (.ok j, c')) :
    ∀ k l, (k = i ∧ l = j ∨ l = k ∧ k.index < c.size) →
      (c.Ends k → c'.render l = c.render k) ∧
        ∀ b, c.concrete k = .ok b → c'.concrete l = .ok b := by
  have hcopied := copied_copy hcopy hno.slots
  obtain ⟨hrefines, hij⟩ := hcopied.refines hc hno
  intro k l hkl
  obtain ⟨s, t, hs, ht, hst⟩ :
      ∃ s t, c.slot? k = some s ∧ c'.slot? l = some t ∧ c.Resembles c' s t := by
    rcases hkl with ⟨rfl, rfl⟩ | ⟨rfl, hold⟩
    · exact hij
    · obtain ⟨s, hs⟩ := exists_slot?_of_index_lt hold
      exact ⟨s, s, hs, CopySteps.slot? hcopied.steps hs, .refl c c' s⟩
  exact ⟨hrefines.render hc hs ht hst, fun _ => hrefines.concrete hc hs ht hst⟩

/-- Copying a tuple of a tuple of an inference variable: the copy and the original, whose field has
another type now, both have the text that the original had. -/
theorem nestedTuples_copy_text :
    nestedTuples.WellFormed ∧ (nestedTuples.copy ⟨21⟩).1 = .ok ⟨24⟩ ∧
      nestedTuples.typeOf? ⟨46⟩ = some ⟨20⟩ ∧
      (nestedTuples.copy ⟨21⟩).2.typeOf? ⟨46⟩ = some ⟨23⟩ ∧
      (nestedTuples.copy ⟨21⟩).2.render ⟨24⟩ = .ok "((T?))" ∧
      (nestedTuples.copy ⟨21⟩).2.render ⟨21⟩ = .ok "((T?))" ∧
      (nestedTuples.copy ⟨21⟩).2.concrete ⟨24⟩ = .ok true := by
  have hok : (nestedTuples.copy ⟨21⟩).1 = .ok ⟨24⟩ := by decide +kernel
  have hno : NoOverflow nestedTuples (nestedTuples.copy ⟨21⟩).2 := by decide +kernel
  have hmeaning := copy_keeps_texts_and_concreteness reached_nestedTuples.wellFormed hno
    (Prod.ext hok rfl)
  have hends : nestedTuples.Ends ⟨21⟩ := ⟨3, by decide +kernel⟩
  have htext : nestedTuples.render ⟨21⟩ = .ok "((T?))" := by decide +kernel
  obtain ⟨hcopy, hconcrete⟩ := hmeaning ⟨21⟩ ⟨24⟩ (.inl ⟨rfl, rfl⟩)
  obtain ⟨horiginal, -⟩ := hmeaning ⟨21⟩ ⟨21⟩ (.inr ⟨rfl, by decide +kernel⟩)
  refine ⟨reached_nestedTuples.wellFormed, hok, by decide +kernel, by decide +kernel, ?_, ?_, ?_⟩
  · exact (hcopy hends).trans htext
  · exact (horiginal hends).trans htext
  · exact hconcrete true (by decide +kernel)

end TypeStore.Context
