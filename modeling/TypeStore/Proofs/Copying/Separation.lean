import TypeStore.Proofs.Copying.Meaning
import TypeStore.Proofs.Copying.Rebinding

/-!
# Inference variables of a copy and of the original

The copy of a type has inference variables of its own: whatever it reaches through owned children
was made together with it. The original keeps the variables that are its own children. But a
child that is neither builtin nor an inference variable is given to its node as a copy, and the
original refers to that node as well. Below such a child the original and the copy have the same
variables from then on.
-/

namespace TypeStore.Context

theorem exists_mem_right {α β : Type} {R : α → β → Prop} {l : List α} {m : List β}
    (h : List.Forall₂ R l m) {a : α} (ha : a ∈ l) : ∃ b ∈ m, R a b := by
  induction h with
  | nil => cases ha
  | @cons a' b' l m head _ ih =>
    rcases List.mem_cons.mp ha with rfl | ha
    · exact ⟨b', List.mem_cons_self, head⟩
    · obtain ⟨b, hb, hab⟩ := ih ha
      exact ⟨b, List.mem_cons_of_mem _ hb, hab⟩

theorem exists_mem_left {α β : Type} {R : α → β → Prop} {l : List α} {m : List β}
    (h : List.Forall₂ R l m) {b : β} (hb : b ∈ m) : ∃ a ∈ l, R a b :=
  exists_mem_right h.flip hb

/-! ## Reaching inference variables -/

/-- A slot has an owned child that leads to another slot, which is not builtin. -/
def Owns (c : Context) (i k : SlotId) : Prop :=
  ∃ s v, c.slot? i = some s ∧ v ∈ s.shape.owned ∧ c.typeOf? v.node = some k ∧
    c.isBuiltin k = false

/-- A slot is reached through owned children. -/
def Reaches (c : Context) : SlotId → SlotId → Prop := Relation.ReflTransGen c.Owns

/-- A slot is an inference variable. -/
def IsVar (c : Context) (k : SlotId) : Prop := ∃ s, c.slot? k = some s ∧ s.isInfer = true

instance (c : Context) (i k : SlotId) : Decidable (c.Owns i k) :=
  decidable_of_iff (∃ s ∈ c.slot? i, ∃ v ∈ s.shape.owned, c.typeOf? v.node = some k ∧
    c.isBuiltin k = false) (by
      constructor
      · rintro ⟨s, hs, v, hv, hk⟩
        exact ⟨s, v, hs, hv, hk⟩
      · rintro ⟨s, v, hs, hv, hk⟩
        exact ⟨s, hs, v, hv, hk⟩)

instance (c : Context) (k : SlotId) : Decidable (c.IsVar k) :=
  inferInstanceAs (Decidable (∃ s ∈ c.slot? k, s.isInfer = true))

/-- An inference variable that is reached from a slot. -/
def ReachesVar (c : Context) (i k : SlotId) : Prop := c.Reaches i k ∧ c.IsVar k

/-- An inference variable that is a child of a slot. -/
def OwnVar (c : Context) (i k : SlotId) : Prop := c.Owns i k ∧ c.IsVar k

/-- An inference variable that is reached through another child. -/
def NestedVar (c : Context) (i k : SlotId) : Prop :=
  ∃ m, c.Owns i m ∧ ¬ c.IsVar m ∧ c.ReachesVar m k

section Reach

variable {c : Context} {i k : SlotId}

theorem IsVar.not_owns (h : c.IsVar i) : ¬ c.Owns i k := by
  intro howns
  obtain ⟨s, v, hs, hv, -⟩ := howns
  obtain ⟨t, ht, hinfer⟩ := h
  rw [hs] at ht
  cases ht
  obtain ⟨state, location, hshape⟩ := Slot.isInfer_iff.mp hinfer
  rw [hshape] at hv
  cases hv

theorem IsVar.reaches_eq (h : c.IsVar i) (hk : c.Reaches i k) : k = i := by
  rcases Relation.ReflTransGen.cases_head hk with heq | ⟨m, hm, -⟩
  · exact heq.symm
  · exact absurd hm h.not_owns

theorem reachesVar_iff :
    c.ReachesVar i k ↔ k = i ∧ c.IsVar i ∨ c.OwnVar i k ∨ c.NestedVar i k := by
  constructor
  · intro h
    obtain ⟨hreach, hk⟩ := h
    rcases Relation.ReflTransGen.cases_head hreach with rfl | ⟨m, hm, hmk⟩
    · exact .inl ⟨rfl, hk⟩
    · by_cases hvar : c.IsVar m
      · rw [← hvar.reaches_eq hmk] at hm
        exact .inr (.inl ⟨hm, hk⟩)
      · exact .inr (.inr ⟨m, hm, hvar, hmk, hk⟩)
  · intro h
    rcases h with ⟨rfl, hk⟩ | ⟨hown, hk⟩ | ⟨m, hm, -, hmk, hk⟩
    · exact ⟨.refl, hk⟩
    · exact ⟨.single hown, hk⟩
    · exact ⟨.head hm hmk, hk⟩

end Reach

/-! ## Well-formed stores -/

section Kept

variable {c c' : Context}

/-- Within the width of ids, what is minted was not in use before. -/
theorem Minted.next_le {n : NodeId} (h : c.Minted c' n) (hno : NoOverflow c c')
    (hpos : 0 < c.size) : c.supply.next.raw ≤ n.raw := by
  obtain ⟨count, k, hk, hsize, hnext, hn⟩ := h
  have hslots := hno.slots
  have hnodes := hno.nodes
  have hlt := UInt32.toNat_lt c.supply.next.raw
  rw [UInt32.le_iff_toNat_le] at hnodes ⊢
  omega

theorem WellFormed.size_pos (hc : c.WellFormed) {n : NodeId} (hn : c.Uses n) : 0 < c.size := by
  rcases hn with ⟨i, hi⟩ | ⟨i, s, hs, -⟩
  · obtain ⟨s, hs, -⟩ := hc.made hi
    exact Nat.zero_lt_of_lt (index_lt_of_slot? hs)
  · exact Nat.zero_lt_of_lt (index_lt_of_slot? hs)

theorem WellFormed.lt_of_uses (hc : c.WellFormed) {n : NodeId} (h : c.Uses n) :
    n.raw < c.supply.next.raw := by
  rcases h with ⟨i, hi⟩ | ⟨i, s, hs, hn⟩
  · exact hc.minted hi
  · exact hc.below hs n hn

theorem WellFormed.not_minted (hc : c.WellFormed) (hno : NoOverflow c c') (hpos : 0 < c.size)
    {n : NodeId} (hn : c.Uses n) : ¬ c.Minted c' n := by
  intro hminted
  exact UInt32.not_lt.mpr (hminted.next_le hno hpos) (hc.lt_of_uses hn)

/-- A node in use keeps its type, or gets a copy of it. -/
theorem WellFormed.rebound (hc : c.WellFormed) (hno : NoOverflow c c') (hpos : 0 < c.size)
    (h : c.Rebound c') {n : NodeId} (hn : c.Uses n) :
    c'.typeOf? n = c.typeOf? n ∨ ∃ a s b t, c.typeOf? n = some a ∧ c.isBuiltin a = false ∧
      c.slot? a = some s ∧ c'.typeOf? n = some b ∧ c.size ≤ b.index ∧ c'.slot? b = some t ∧
      c.CopyOf c' s t := by
  rcases h n with hsame | ⟨b, t, hb, hnew, ht, hnode, horigin⟩
  · exact .inl hsame
  · cases horigin with
    | infer hinfer minted => exact absurd (hnode ▸ minted) (hc.not_minted hno hpos hn)
    | @copy m a s type own slot copy =>
      obtain ⟨s', hs', hsnode⟩ := hc.made type
      rw [slot] at hs'
      cases hs'
      have hm : m = n := by rw [← hsnode, ← copy.node, hnode]
      exact .inr ⟨a, s, b, t, hm ▸ type, own, slot, hb, hnew, ht, copy⟩

/-- A slot of the second store is one of the first or a copy of it. -/
def Counterpart (c c' : Context) (a b : SlotId) : Prop :=
  ∃ s t, c.slot? a = some s ∧ c'.slot? b = some t ∧ (b = a ∨ c.CopyOf c' s t)

theorem Counterpart.isVar_iff (steps : CopySteps c c') {a b : SlotId}
    (h : c.Counterpart c' a b) : c'.IsVar b ↔ c.IsVar a := by
  obtain ⟨s, t, hs, ht, hcase⟩ := h
  have hinfer : t.isInfer = s.isInfer := by
    rcases hcase with rfl | hcopy
    · rw [CopySteps.slot? steps hs] at ht
      cases ht
      rfl
    · rw [hcopy.isInfer_eq, hcopy.composite]
  constructor
  · intro hb
    obtain ⟨u, hu, hvar⟩ := hb
    rw [ht] at hu
    cases hu
    exact ⟨s, hs, hinfer ▸ hvar⟩
  · intro ha
    obtain ⟨u, hu, hvar⟩ := ha
    rw [hs] at hu
    cases hu
    exact ⟨t, ht, hinfer.trans hvar⟩

/-- A node in use leads to an inference variable if it did before, and then to the same one. -/
theorem WellFormed.typeOf?_var_iff (hc : c.WellFormed) (hno : NoOverflow c c')
    (hpos : 0 < c.size) (steps : CopySteps c c') (h : c.Rebound c') {n : NodeId} (hn : c.Uses n)
    {k : SlotId} :
    c'.typeOf? n = some k ∧ c'.IsVar k ↔ c.typeOf? n = some k ∧ c.IsVar k := by
  rcases hc.rebound hno hpos h hn with hsame | ⟨a, s, b, t, ha, -, hs, hb, -, ht, hcopy⟩
  · rw [hsame]
    refine and_congr_right fun hk => ?_
    obtain ⟨u, hu, -⟩ := hc.made hk
    exact Counterpart.isVar_iff steps ⟨u, u, hu, CopySteps.slot? steps hu, .inl rfl⟩
  · -- neither the slot nor its copy is an inference variable
    have hb' : ¬ c'.IsVar b := by
      intro hvar
      obtain ⟨t', ht', hinfer⟩ := hvar
      rw [ht] at ht'
      cases ht'
      rw [hcopy.isInfer_eq] at hinfer
      cases hinfer
    have ha' : ¬ c.IsVar a := by
      intro hvar
      exact hb' ((Counterpart.isVar_iff steps ⟨s, t, hs, ht, .inr hcopy⟩).mpr hvar)
    constructor
    · intro hk
      rw [hb] at hk
      exact absurd (Option.some.inj hk.1 ▸ hk.2) hb'
    · intro hk
      rw [ha] at hk
      exact absurd (Option.some.inj hk.1 ▸ hk.2) ha'

end Kept

/-! ## After a copy -/

section After

variable {c c' : Context} {i j : SlotId}

theorem CopiedSlot.size_le_index (h : CopiedSlot c i j c') : c.size ≤ j.index := by
  cases h with
  | infer slot shape new minted => rw [index_nextSlot new.room]
  | composite slot composite owned room =>
    rw [index_nextSlot room]
    exact CopySteps.size_le owned.steps.1

theorem CopiedSlot.exists_slot (h : CopiedSlot c i j c') : ∃ s, c.slot? i = some s := by
  cases h with
  | infer slot shape new minted => exact ⟨_, slot⟩
  | composite slot composite owned room => exact ⟨_, slot⟩

/-- From a new slot only new slots are reached. -/
theorem CopiedSlot.reaches_new (h : CopiedSlot c i j c') {k l : SlotId} (hk : c.size ≤ k.index)
    (hreach : c'.Reaches k l) : c.size ≤ l.index := by
  induction hreach with
  | refl => exact hk
  | tail _ howns ih =>
    obtain ⟨t, w, ht, hw, hl, hown⟩ := howns
    rcases h.settled ih ht hw with ⟨x, hx, hbuiltin⟩ | ⟨x, y, hx, hnew, -⟩
    · rw [hl] at hx
      cases hx
      rw [CopySteps.isBuiltin_eq h.steps, hbuiltin] at hown
      cases hown
    · rw [hl] at hx
      cases hx
      exact hnew

/-- The original keeps the inference variables that are its children. -/
theorem CopiedSlot.ownVar_iff (h : CopiedSlot c i j c') (hc : c.WellFormed)
    (hno : NoOverflow c c') {k : SlotId} : c'.OwnVar i k ↔ c.OwnVar i k := by
  obtain ⟨s, hs⟩ := h.exists_slot
  have hs' := CopySteps.slot? h.steps hs
  have hpos : 0 < c.size := Nat.zero_lt_of_lt (index_lt_of_slot? hs)
  have hchild : ∀ v ∈ s.shape.owned, c'.typeOf? v.node = some k ∧ c'.IsVar k ↔
      c.typeOf? v.node = some k ∧ c.IsVar k := fun v hv =>
    hc.typeOf?_var_iff hno hpos h.steps h.rebound (uses_of_mem_owned hs hv)
  constructor
  · intro hk
    obtain ⟨⟨t, v, ht, hv, hk, hown⟩, hvar⟩ := hk
    rw [hs'] at ht
    cases ht
    rw [CopySteps.isBuiltin_eq h.steps] at hown
    obtain ⟨hk, hvar⟩ := (hchild v hv).mp ⟨hk, hvar⟩
    exact ⟨⟨s, v, hs, hv, hk, hown⟩, hvar⟩
  · intro hk
    obtain ⟨⟨t, v, ht, hv, hk, hown⟩, hvar⟩ := hk
    rw [hs] at ht
    cases ht
    rw [← CopySteps.isBuiltin_eq h.steps] at hown
    obtain ⟨hk, hvar⟩ := (hchild v hv).mpr ⟨hk, hvar⟩
    exact ⟨⟨s, v, hs', hv, hk, hown⟩, hvar⟩

/-- The original and the copy have the other children in common. -/
theorem CopiedSlot.owns_iff (h : CopiedSlot c i j c') (hc : c.WellFormed) (hno : NoOverflow c c')
    {m : SlotId} (hm : ¬ c'.IsVar m) : c'.Owns i m ↔ c'.Owns j m := by
  obtain ⟨hrefines, s, t, hs, ht, ⟨vars, hvars, hshape⟩, -⟩ := h.refines hc hno
  have hs' := CopySteps.slot? h.steps hs
  have howned : t.shape.owned = vars := by
    rw [hshape, Shape.owned_withOwned hvars.length_eq.symm]
  -- a node that leads to `m` does not lead to an inference variable
  have hcomposite : ∀ {n : NodeId} {u : Slot}, c'.typeOf? n = some m → c'.slotOf? n = some u →
      u.isInfer = false := by
    intro n u hn hu
    obtain ⟨m', hm', hu⟩ := slotOf?_eq_some_iff.mp hu
    rw [hn] at hm'
    cases hm'
    rw [Bool.eq_false_iff]
    intro hinfer
    exact hm ⟨u, hu, hinfer⟩
  constructor
  · intro howns
    obtain ⟨s', v, hs'', hv, hm', hown⟩ := howns
    rw [hs'] at hs''
    cases hs''
    obtain ⟨w, hw, hvw⟩ := exists_mem_right hvars hv
    rcases hvw with rfl | ⟨s₀, -, hs₀, -, hinfer, -⟩
    · exact ⟨t, w, ht, howned ▸ hw, hm', hown⟩
    · obtain ⟨u, hu, hlike⟩ := hrefines.typed hs₀
      have := hcomposite hm' hu
      rw [hlike.isInfer_eq, hinfer] at this
      cases this
  · intro howns
    obtain ⟨t', w, ht', hw, hm', hown⟩ := howns
    rw [ht] at ht'
    cases ht'
    obtain ⟨v, hv, hvw⟩ := exists_mem_left hvars (howned ▸ hw)
    rcases hvw with rfl | ⟨s₀, t₀, -, ht₀, hinfer, hshape₀⟩
    · exact ⟨s, w, hs', hv, hm', hown⟩
    · have := hcomposite hm' ht₀
      rw [Slot.isInfer_congr hshape₀, hinfer] at this
      cases this

/-- A child of a counterpart is an inference variable under another node, or the same child. -/
theorem CopyOf.child (hc : c.WellFormed) (hno : NoOverflow c c') (hpos : 0 < c.size)
    (steps : CopySteps c c') {a : SlotId} {s t : Slot} (hs : c.slot? a = some s)
    (h : c.CopyOf c' s t) {w : TypeVar} (hw : w ∈ t.shape.owned) :
    w ∈ s.shape.owned ∨ ∃ k, c.OwnVar a k := by
  obtain ⟨ws, hws, hshape⟩ := h.shape
  rw [hshape, Shape.owned_withOwned hws.length_eq.symm] at hw
  obtain ⟨v, hv, hvw⟩ := exists_mem_left hws hw
  cases hvw with
  | same => exact .inl hv
  | fresh _ infer =>
    rcases infer with ⟨n, huses, hminted⟩ | ⟨k, u, hk, hown, hu, hinfer⟩
    · exact absurd hminted (hc.not_minted hno hpos huses)
    · obtain ⟨u', hu', -⟩ := hc.made hk
      have hsame := CopySteps.slot? steps hu'
      rw [hu] at hsame
      cases hsame
      exact .inr ⟨k, ⟨s, v, hs, hv, hk, hown⟩, u, hu', hinfer⟩
  | @named k u type own slot composite =>
    obtain ⟨u', hu', hnode⟩ := hc.made type
    have hsame := CopySteps.slot? steps hu'
    rw [slot] at hsame
    cases hsame
    rw [hnode]
    exact .inl hv

/-- What a child of an old slot leads to is the counterpart of what it led to. -/
theorem CopiedSlot.exists_counterpart (h : CopiedSlot c i j c') (hc : c.WellFormed)
    (hno : NoOverflow c c') {a x : SlotId} {s : Slot} {v : TypeVar} (hs : c.slot? a = some s)
    (hv : v ∈ s.shape.owned) (hx : c'.typeOf? v.node = some x) (hown : c'.isBuiltin x = false) :
    ∃ y, c.Owns a y ∧ c.Counterpart c' y x := by
  have hpos : 0 < c.size := Nat.zero_lt_of_lt (index_lt_of_slot? hs)
  rcases hc.rebound hno hpos h.rebound (uses_of_mem_owned hs hv) with
    hsame | ⟨y, u, b, t, hy, hown', hu, hb, -, ht, hcopy⟩
  · rw [hx] at hsame
    obtain ⟨u, hu, -⟩ := hc.made hsame.symm
    rw [CopySteps.isBuiltin_eq h.steps] at hown
    exact ⟨x, ⟨s, v, hs, hv, hsame.symm, hown⟩, u, u, hu, CopySteps.slot? h.steps hu, .inl rfl⟩
  · rw [hx] at hb
    cases hb
    exact ⟨y, ⟨s, v, hs, hv, hy, hown'⟩, u, t, hu, ht, .inr hcopy⟩

/-- Where a counterpart reaches an inference variable, the slot of the first store did. -/
theorem CopiedSlot.exists_reachesVar (h : CopiedSlot c i j c') (hc : c.WellFormed)
    (hno : NoOverflow c c') {a b k : SlotId} (hab : c.Counterpart c' a b)
    (hk : c'.ReachesVar b k) : ∃ l, c.ReachesVar a l := by
  obtain ⟨hreach, hvar⟩ := hk
  -- along the path, from the counterpart down; in the first store it may end earlier
  induction hreach using Relation.ReflTransGen.head_induction_on generalizing a with
  | refl => exact ⟨a, .refl, (hab.isVar_iff h.steps).mp hvar⟩
  | @head b x howns _ ih =>
    obtain ⟨s, t, hs, ht, hcase⟩ := hab
    obtain ⟨t', w, ht', hw, hx, hown⟩ := howns
    rw [ht] at ht'
    cases ht'
    have hchild : w ∈ s.shape.owned ∨ ∃ l, c.OwnVar a l := by
      rcases hcase with rfl | hcopy
      · rw [CopySteps.slot? h.steps hs] at ht
        cases ht
        exact .inl hw
      · have hpos : 0 < c.size := Nat.zero_lt_of_lt (index_lt_of_slot? hs)
        exact hcopy.child hc hno hpos h.steps hs hw
    rcases hchild with hw | ⟨l, hl, hvar'⟩
    · obtain ⟨y, hay, hyx⟩ := h.exists_counterpart hc hno hs hw hx hown
      obtain ⟨l, hreach, hvar'⟩ := ih hyx
      exact ⟨l, .head hay hreach, hvar'⟩
    · exact ⟨l, .single hl, hvar'⟩

/-- A copy nests no inference variables in the original that did not have any. -/
theorem CopiedSlot.exists_nestedVar (h : CopiedSlot c i j c') (hc : c.WellFormed)
    (hno : NoOverflow c c') {k : SlotId} (hk : c'.NestedVar i k) : ∃ l, c.NestedVar i l := by
  obtain ⟨s, hs⟩ := h.exists_slot
  obtain ⟨m, ⟨s', v, hs', hv, hm, hown⟩, hnot, hreach⟩ := hk
  rw [CopySteps.slot? h.steps hs] at hs'
  cases hs'
  obtain ⟨y, hy, hcounter⟩ := h.exists_counterpart hc hno hs hv hm hown
  obtain ⟨l, hl⟩ := h.exists_reachesVar hc hno hcounter hreach
  exact ⟨l, y, hy, fun hvar => hnot ((hcounter.isVar_iff h.steps).mpr hvar), hl⟩

/-- The original and the copy have the same inference variables nested below them. -/
theorem CopiedSlot.nestedVar_iff (h : CopiedSlot c i j c') (hc : c.WellFormed)
    (hno : NoOverflow c c') {k : SlotId} : c'.NestedVar i k ↔ c'.NestedVar j k := by
  constructor
  · intro hk
    obtain ⟨m, hm, hnot, hreach⟩ := hk
    exact ⟨m, (h.owns_iff hc hno hnot).mp hm, hnot, hreach⟩
  · intro hk
    obtain ⟨m, hm, hnot, hreach⟩ := hk
    exact ⟨m, (h.owns_iff hc hno hnot).mpr hm, hnot, hreach⟩

/-- Nothing else is common to the original and the copy. -/
theorem CopiedSlot.common_iff (h : CopiedSlot c i j c') (hc : c.WellFormed)
    (hno : NoOverflow c c') {k : SlotId} :
    c'.ReachesVar i k ∧ c'.ReachesVar j k ↔ c'.NestedVar i k := by
  constructor
  · intro hk
    obtain ⟨hi, hj⟩ := hk
    have hk : c.size ≤ k.index := h.reaches_new h.size_le_index hj.1
    -- neither the original itself nor an inference variable that it has as a child is new
    have hold : ∀ {l u}, c.slot? l = some u → k ≠ l := by
      rintro l u hu rfl
      exact absurd (index_lt_of_slot? hu) (Nat.not_lt.mpr hk)
    rcases reachesVar_iff.mp hi with ⟨rfl, -⟩ | hvar | hvar
    · obtain ⟨s, hs⟩ := h.exists_slot
      exact absurd rfl (hold hs)
    · obtain ⟨-, u, hu, -⟩ := (h.ownVar_iff hc hno).mp hvar
      exact absurd rfl (hold hu)
    · exact hvar
  · intro hk
    exact ⟨reachesVar_iff.mpr (.inr (.inr hk)),
      reachesVar_iff.mpr (.inr (.inr ((h.nestedVar_iff hc hno).mp hk)))⟩

/-- An original in which nothing is nested reaches what it reached before. -/
theorem CopiedSlot.reachesVar_iff_of_flat (h : CopiedSlot c i j c') (hc : c.WellFormed)
    (hno : NoOverflow c c') (hflat : ∀ k, ¬ c.NestedVar i k) {k : SlotId} :
    c'.ReachesVar i k ↔ c.ReachesVar i k := by
  obtain ⟨s, hs⟩ := h.exists_slot
  have hself : c'.IsVar i ↔ c.IsVar i :=
    Counterpart.isVar_iff h.steps ⟨s, s, hs, CopySteps.slot? h.steps hs, .inl rfl⟩
  have hflat' : ¬ c'.NestedVar i k := by
    intro hk
    obtain ⟨l, hl⟩ := h.exists_nestedVar hc hno hk
    exact hflat l hl
  simp only [reachesVar_iff, hself, h.ownVar_iff hc hno, hflat, hflat', or_false]

end After

/-- A copy reaches inference variables of its own only. The original keeps those that are its
children. What is nested deeper the two have in common, and nothing else; so if nothing was, they
share no inference variable and the original reaches what it reached before. -/
theorem copy_has_own_variables {c c' : Context} {i j : SlotId} (hc : c.WellFormed)
    (hno : NoOverflow c c') (hcopy : c.copy i = (.ok j, c')) :
    (∀ k, c'.ReachesVar j k → c.size ≤ k.index) ∧
      (∀ k, c'.OwnVar i k ↔ c.OwnVar i k) ∧
      (∀ k, c'.NestedVar i k ↔ c'.NestedVar j k) ∧
      (∀ k, c'.ReachesVar i k ∧ c'.ReachesVar j k ↔ c'.NestedVar i k) ∧
      ((∀ k, ¬ c.NestedVar i k) →
        (∀ k, c'.ReachesVar j k → ¬ c'.ReachesVar i k) ∧
          ∀ k, c'.ReachesVar i k ↔ c.ReachesVar i k) := by
  have hcopied := copied_copy hcopy hno.slots
  refine ⟨?_, fun k => hcopied.ownVar_iff hc hno, fun k => hcopied.nestedVar_iff hc hno,
    fun k => hcopied.common_iff hc hno, ?_⟩
  · intro k hk
    exact hcopied.reaches_new hcopied.size_le_index hk.1
  · intro hflat
    refine ⟨?_, fun k => hcopied.reachesVar_iff_of_flat hc hno hflat⟩
    intro k hj hi
    obtain ⟨l, hl⟩ := hcopied.exists_nestedVar hc hno ((hcopied.common_iff hc hno).mp ⟨hi, hj⟩)
    exact hflat l hl

/-- Nothing is nested in a tuple whose only field is an inference variable. A copy of it shares no
variable with it; a copy of the tuple around it has none that was there before. -/
theorem nestedTuples_copy_has_own_variables :
    nestedTuples.WellFormed ∧ (nestedTuples.copy ⟨20⟩).1 = .ok ⟨23⟩ ∧
      (nestedTuples.copy ⟨20⟩).2.ReachesVar ⟨23⟩ ⟨22⟩ ∧
      (∀ k, (nestedTuples.copy ⟨20⟩).2.ReachesVar ⟨23⟩ k →
        ¬ (nestedTuples.copy ⟨20⟩).2.ReachesVar ⟨20⟩ k) ∧
      (nestedTuples.copy ⟨20⟩).2.ReachesVar ⟨20⟩ ⟨19⟩ ∧
      ∀ k, (nestedTuples.copy ⟨21⟩).2.ReachesVar ⟨24⟩ k → 22 ≤ k.index := by
  have hwf := reached_nestedTuples.wellFormed
  have hinner : (nestedTuples.copy ⟨20⟩).1 = .ok ⟨23⟩ := by decide +kernel
  have houter : (nestedTuples.copy ⟨21⟩).1 = .ok ⟨24⟩ := by decide +kernel
  have hnoInner : NoOverflow nestedTuples (nestedTuples.copy ⟨20⟩).2 := by decide +kernel
  have hnoOuter : NoOverflow nestedTuples (nestedTuples.copy ⟨21⟩).2 := by decide +kernel
  have hsize : nestedTuples.size = 22 := by decide +kernel
  have hflat : ∀ k, ¬ nestedTuples.NestedVar ⟨20⟩ k := by
    rintro k ⟨m, ⟨s, v, hs, hv, hm, -⟩, hnot, -⟩
    have howned : (nestedTuples.slot? ⟨20⟩).map (fun s => s.shape.owned) = some [⟨⟨45⟩⟩] := by
      decide +kernel
    rw [hs, Option.map_some, Option.some.injEq] at howned
    rw [howned, List.mem_singleton] at hv
    have htype : nestedTuples.typeOf? ⟨45⟩ = some ⟨19⟩ := by decide +kernel
    rw [hv, htype] at hm
    cases hm
    exact hnot (by decide +kernel)
  obtain ⟨-, -, -, -, hdisjoint⟩ := copy_has_own_variables hwf hnoInner (Prod.ext hinner rfl)
  obtain ⟨hnew, -⟩ := copy_has_own_variables hwf hnoOuter (Prod.ext houter rfl)
  obtain ⟨hapart, hsame⟩ := hdisjoint hflat
  refine ⟨hwf, hinner, ?_, hapart, (hsame _).mpr ?_, hsize ▸ hnew⟩
  · exact ⟨.single (by decide +kernel), by decide +kernel⟩
  · exact ⟨.single (by decide +kernel), by decide +kernel⟩

/-- Copying the tuple around it gives the inner tuple to its node as a copy, so the original and
the copy share the inference variable of that copy and the original has lost its own. -/
theorem nestedTuples_copy_shares_variable :
    nestedTuples.WellFormed ∧ (nestedTuples.copy ⟨21⟩).1 = .ok ⟨24⟩ ∧
      ¬ (∀ k, (nestedTuples.copy ⟨21⟩).2.ReachesVar ⟨24⟩ k →
        ¬ (nestedTuples.copy ⟨21⟩).2.ReachesVar ⟨21⟩ k) ∧
      ¬ (∀ k, (nestedTuples.copy ⟨21⟩).2.ReachesVar ⟨21⟩ k ↔ nestedTuples.ReachesVar ⟨21⟩ k) := by
  have hbelow : (nestedTuples.copy ⟨21⟩).2.ReachesVar ⟨23⟩ ⟨22⟩ :=
    ⟨.single (by decide +kernel), by decide +kernel⟩
  have hcopy : (nestedTuples.copy ⟨21⟩).2.ReachesVar ⟨24⟩ ⟨22⟩ :=
    ⟨.head (by decide +kernel) hbelow.1, hbelow.2⟩
  have horiginal : (nestedTuples.copy ⟨21⟩).2.ReachesVar ⟨21⟩ ⟨22⟩ :=
    ⟨.head (by decide +kernel) hbelow.1, hbelow.2⟩
  refine ⟨reached_nestedTuples.wellFormed, by decide +kernel, ?_, ?_⟩
  · intro h
    exact h ⟨22⟩ hcopy horiginal
  · intro h
    obtain ⟨-, hvar⟩ := (h ⟨22⟩).mp horiginal
    exact absurd hvar (by decide +kernel)

end TypeStore.Context
