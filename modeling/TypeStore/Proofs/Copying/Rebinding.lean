import TypeStore.Proofs.Copying.Origin
import TypeStore.Proofs.Session

/-!
# What a copy writes into the table

A copy that succeeds gives new types to nodes that had one. The new type is then a copy, but of
which slot? The table may lead to slots made for other nodes, and a slot that a node had once may
still be the type of another node. A copy goes by the node that a slot was made for. So a node
gets a copy of some slot that was made for it and that some node has as its type; if there is only
one such slot, it is the type the node had.
-/

namespace TypeStore.Context

/-- A slot, or what a variable refers to, was copied with success. -/
def CopiesTo (c c' : Context) : Prop :=
  (∃ i j, c.copy i = (.ok j, c')) ∨ ∃ v w, c.copyVar v = (.ok w, c')

/-- Whatever node leads to a slot that was made for `m` leads to `a`. -/
def SoleType (c : Context) (m : NodeId) (a : SlotId) : Prop :=
  ∀ n i s, c.typeOf? n = some i → c.slot? i = some s → s.node = m → i = a

theorem CopiesTo.rebound {c c' : Context} (h : c.CopiesTo c') (hslots : c'.size ≤ 2 ^ 32) :
    c.Rebound c' := by
  rcases h with ⟨i, j, hcopy⟩ | ⟨v, w, hcopy⟩
  · exact (copied_copy hcopy hslots).rebound
  · exact (copied_copyVar hcopy hslots).rebound

theorem CopyOf.kind_eq {c c' : Context} {s t : Slot} (h : c.CopyOf c' s t) : t.kind = s.kind := by
  obtain ⟨ws, -, hshape⟩ := h.shape
  rw [Slot.kind, hshape, Shape.kind_withOwned]
  rfl

/-- A node that had a type has the same one after a copy, or a new one that was made for it. The
new one is an inference variable if the node was minted by the copy, and else the copy of a slot
that was made for the node and that some node had as its type. Where no node has a slot that was
made for this one, except the type it had, it is a copy of that type. -/
theorem copy_rebinds_to_copies {c c' : Context} (hcopy : c.CopiesTo c')
    (hslots : c'.size ≤ 2 ^ 32) :
    ∀ m a, c.typeOf? m = some a → ∃ b, c'.typeOf? m = some b ∧
      (b = a ∨ c.size ≤ b.index ∧ ∃ t, c'.slot? b = some t ∧ t.node = m ∧
        (c.Minted c' m ∧ t.isInfer = true ∨
          ∃ n i s, c.typeOf? n = some i ∧ c.isBuiltin i = false ∧ c.slot? i = some s ∧
            s.node = m ∧ t.kind = s.kind ∧ c.CopyOf c' s t ∧ (c.SoleType m a → i = a))) := by
  intro m a ha
  rcases hcopy.rebound hslots m with hsame | ⟨b, t, hb, hnew, ht, hnode, horigin⟩
  · exact ⟨a, hsame.trans ha, .inl rfl⟩
  · refine ⟨b, hb, .inr ⟨hnew, t, ht, hnode, ?_⟩⟩
    cases horigin with
    | infer hinfer minted => exact .inl ⟨hnode ▸ minted, hinfer⟩
    | @copy n i s type own slot copy =>
      have hsnode : s.node = m := copy.node.symm.trans hnode
      refine .inr ⟨n, i, s, type, own, slot, hsnode, copy.kind_eq, copy, ?_⟩
      intro hsole
      exact hsole n i s type slot hsnode

/-- In a well-formed store a slot that was made for a node is the type of that node or of none. -/
theorem WellFormed.soleType {c : Context} (hc : c.WellFormed) {m : NodeId} {a : SlotId}
    (ha : c.typeOf? m = some a) : c.SoleType m a := by
  intro n i s hi hs hnode
  obtain ⟨t, ht, htnode⟩ := hc.made hi
  rw [hs] at ht
  cases ht
  have hnm : n = m := htnode.symm.trans hnode
  rw [hnm, ha] at hi
  exact (Option.some.inj hi).symm

/-- Copying a tuple of a tuple gives the inner one, which is nobody else's type, to its node as a
copy. -/
theorem nestedTuples_copy_rebinds :
    nestedTuples.CopiesTo (nestedTuples.copy ⟨21⟩).2 ∧
      (nestedTuples.copy ⟨21⟩).2.size ≤ 2 ^ 32 ∧ nestedTuples.SoleType ⟨46⟩ ⟨20⟩ ∧
      ∃ s t, nestedTuples.slot? ⟨20⟩ = some s ∧ (nestedTuples.copy ⟨21⟩).2.slot? ⟨23⟩ = some t ∧
        nestedTuples.CopyOf (nestedTuples.copy ⟨21⟩).2 s t := by
  have hok : (nestedTuples.copy ⟨21⟩).1 = .ok ⟨24⟩ := by decide +kernel
  have hcopies : nestedTuples.CopiesTo (nestedTuples.copy ⟨21⟩).2 :=
    .inl ⟨⟨21⟩, ⟨24⟩, Prod.ext hok rfl⟩
  have hslots : (nestedTuples.copy ⟨21⟩).2.size ≤ 2 ^ 32 := by decide +kernel
  have hbefore : nestedTuples.typeOf? ⟨46⟩ = some ⟨20⟩ := by decide +kernel
  have hafter : (nestedTuples.copy ⟨21⟩).2.typeOf? ⟨46⟩ = some ⟨23⟩ := by decide +kernel
  have htuple : ((nestedTuples.copy ⟨21⟩).2.slot? ⟨23⟩).map Slot.isInfer = some false := by
    decide +kernel
  have hsole := reached_nestedTuples.wellFormed.soleType hbefore
  refine ⟨hcopies, hslots, hsole, ?_⟩
  obtain ⟨b, hb, hcase⟩ := copy_rebinds_to_copies hcopies hslots ⟨46⟩ ⟨20⟩ hbefore
  rw [hafter] at hb
  cases hb
  rcases hcase with heq | ⟨-, t, ht, -, ⟨-, hinfer⟩ | ⟨n, i, s, -, -, hs, -, -, hst, hi⟩⟩
  · cases heq
  · rw [ht, Option.map_some, hinfer] at htuple
    cases htuple
  · rw [hi hsole] at hs
    exact ⟨s, t, hs, ht, hst⟩

/-- Makes a tuple for one node, gives it to another and then gives the first node a number type
instead; makes a tuple of the second node, an inference variable and a tuple of these two; and
gives a number type to the node that is minted next. -/
def aliasTuples : List Command :=
  [.mint, .register (.new ⟨45⟩ .unit),
    .mint, .bindType ⟨46⟩ ⟨19⟩, .bindType ⟨45⟩ ⟨7⟩,
    .mint, .register (.new ⟨47⟩ (.tuple [⟨⟨46⟩⟩])),
    .mint, .register (.new ⟨48⟩ (.infer (.fresh .general) .unknown)),
    .mint, .register (.new ⟨49⟩ (.tuple [⟨⟨47⟩⟩, ⟨⟨48⟩⟩])),
    .bindType ⟨50⟩ ⟨7⟩]

/-- A store in which a slot is still in use after the node it was made for got another type. -/
def aliasedTuples : Context := (new .standard).run aliasTuples

/-- Copying the last tuple takes the number type from the first node and from the node that the
copy mints: they get types of another kind. And the tuple below gets a copy whose child has another
node, though the child is no inference variable. -/
theorem aliasedTuples_copy_loses_types :
    aliasedTuples.CopiesTo (aliasedTuples.copy ⟨22⟩).2 ∧
      ¬ (∀ m a b s t, aliasedTuples.typeOf? m = some a →
        (aliasedTuples.copy ⟨22⟩).2.typeOf? m = some b → b ≠ a →
        aliasedTuples.slot? a = some s → (aliasedTuples.copy ⟨22⟩).2.slot? b = some t →
        t.kind = s.kind) ∧
      (aliasedTuples.typeOf? ⟨50⟩ = some ⟨7⟩ ∧
        (aliasedTuples.copy ⟨22⟩).2.typeOf? ⟨50⟩ = some ⟨25⟩) ∧
      (aliasedTuples.slotOf? ⟨47⟩).map Slot.shape = some (.tuple [⟨⟨46⟩⟩]) ∧
      ((aliasedTuples.copy ⟨22⟩).2.slotOf? ⟨47⟩).map Slot.shape = some (.tuple [⟨⟨45⟩⟩]) := by
  have hok : (aliasedTuples.copy ⟨22⟩).1 = .ok ⟨26⟩ := by decide +kernel
  refine ⟨.inl ⟨⟨22⟩, ⟨26⟩, Prod.ext hok rfl⟩, ?_, ?_, ?_, ?_⟩
  · intro h
    have hbefore : (aliasedTuples.slot? ⟨7⟩).map Slot.kind = some .int := by decide +kernel
    have hafter : ((aliasedTuples.copy ⟨22⟩).2.slot? ⟨23⟩).map Slot.kind = some .tuple := by
      decide +kernel
    obtain ⟨s, hs, hskind⟩ := Option.map_eq_some_iff.mp hbefore
    obtain ⟨t, ht, htkind⟩ := Option.map_eq_some_iff.mp hafter
    have hkind := h ⟨45⟩ ⟨7⟩ ⟨23⟩ s t (by decide +kernel) (by decide +kernel) (by decide) hs ht
    rw [hskind, htkind] at hkind
    cases hkind
  all_goals decide +kernel

end TypeStore.Context
