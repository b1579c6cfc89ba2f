import TypeStore.Context.Command
import TypeStore.Proofs.Copying.Step

/-!
# Well-formed stores

A store is well-formed when every node that has a type has one that was made for it, and when no
node is mentioned anywhere that is still to be minted. Commands that put slots into the store,
copy, resolve or narrow them keep it so, also when they fail; what could break it is only the
direct writing of the table of types or of the node of a slot.

Node ids and slot ids are 32 bits wide. Everything here is about runs that stay within that: the
supply of nodes has not started over from zero, and there are no more slots than ids for them.
-/

namespace TypeStore

/-! ## The nodes a slot mentions -/

namespace Shape

/-- All variables that occur in a shape, owned or not. -/
def children : Shape → List TypeVar
  | tuple fields => fields
  | function _ params result _ => params.map Param.type ++ [result]
  | closure parameters result _ _ => [parameters, result]
  | adt a => a.fieldTypes
  | array element _ => [element]
  | slice element => [element]
  | reference base _ => [base]
  | rawPointer base _ => [base]
  | projection base _ _ _ => [base]
  | functionPointer params result => params ++ [result]
  | _ => []

end Shape

theorem Shape.mem_children_of_mem_owned {s : Shape} {v : TypeVar} (h : v ∈ s.owned) :
    v ∈ s.children := by
  cases s with
  | closure parameters result generics captures =>
    rw [List.mem_singleton.mp h]
    exact List.mem_cons_self
  | tuple fields => exact h
  | function name params result generics => exact h
  | adt a => exact h
  | _ => cases h

private theorem mem_of_mem_zipWith {α β : Type} {f : α → β → α} {g : α → β}
    (hg : ∀ a b, g (f a b) = b) {l : List α} {m : List β} {b : β}
    (h : b ∈ (l.zipWith f m).map g) : b ∈ m := by
  induction l generalizing m with
  | nil => simp at h
  | cons a l ih =>
    cases m with
    | nil => simp at h
    | cons b' m =>
      simp only [List.zipWith_cons_cons, List.map_cons, List.mem_cons, hg] at h
      rcases h with rfl | h
      · exact List.mem_cons_self
      · exact List.mem_cons_of_mem _ (ih h)

theorem Adt.mem_of_mem_refill {vs : List Variant} {types : List TypeVar} {v : TypeVar}
    (h : v ∈ (refill vs types).flatMap Variant.fieldTypes) : v ∈ types := by
  induction vs generalizing types with
  | nil => simp [refill] at h
  | cons w vs ih =>
    rw [refill, List.flatMap_cons, List.mem_append] at h
    rcases h with h | h
    · exact List.mem_of_mem_take (mem_of_mem_zipWith (fun _ _ => rfl) h)
    · exact List.mem_of_mem_drop (ih h)

private theorem headD_mem {α : Type} (l : List α) (a : α) : l.headD a ∈ l ∨ l.headD a = a := by
  cases l with
  | nil => exact .inr rfl
  | cons b l => exact .inl List.mem_cons_self

/-- A child of a shape with replaced children is a replacement or was there before. -/
theorem Shape.mem_children_withOwned {s : Shape} {vars : List TypeVar} {v : TypeVar}
    (h : v ∈ (s.withOwned vars).children) : v ∈ vars ∨ v ∈ s.children := by
  cases s with
  | tuple fields => exact .inl h
  | function name params result generics =>
    simp only [withOwned, children, List.mem_append, List.mem_singleton] at h
    rcases h with h | rfl
    · exact .inl (mem_of_mem_zipWith (fun _ _ => rfl) h)
    · rcases headD_mem (vars.drop params.length) result with hmem | heq
      · exact .inl (List.mem_of_mem_drop hmem)
      · exact .inr (by rw [heq]; simp [children])
  | closure parameters result generics captures =>
    simp only [withOwned, children, List.mem_cons, List.not_mem_nil, or_false] at h
    rcases h with rfl | rfl
    · rcases headD_mem vars parameters with hmem | heq
      · exact .inl hmem
      · exact .inr (by rw [heq]; simp [children])
    · exact .inr (by simp [children])
  | adt a => exact .inl (Adt.mem_of_mem_refill h)
  | _ => exact .inr h

namespace Slot

/-- The nodes that tell what a slot is and what it is made of. -/
def mentions (s : Slot) : List NodeId :=
  s.node :: s.binding :: s.shape.children.map TypeVar.node

/-- Every node that a slot mentions comes before a given one. -/
def Below (s : Slot) (next : NodeId) : Prop := ∀ n ∈ s.mentions, n.raw < next.raw

instance (s : Slot) (next : NodeId) : Decidable (s.Below next) :=
  inferInstanceAs (Decidable (∀ n ∈ s.mentions, n.raw < next.raw))

theorem Below.node {s : Slot} {next : NodeId} (h : s.Below next) : s.node.raw < next.raw :=
  h _ List.mem_cons_self

theorem Below.child {s : Slot} {next : NodeId} (h : s.Below next) {v : TypeVar}
    (hv : v ∈ s.shape.children) : v.node.raw < next.raw :=
  h _ (by simpa [mentions] using .inr (.inr ⟨v, hv, rfl⟩))

theorem Below.mono {s : Slot} {m n : NodeId} (h : s.Below m) (hmn : m.raw ≤ n.raw) :
    s.Below n :=
  fun k hk => UInt32.lt_of_lt_of_le (h k hk) hmn

theorem Below.withOwned {s : Slot} {next : NodeId} {vars : List TypeVar} (h : s.Below next)
    (hvars : ∀ w ∈ vars, w.node.raw < next.raw) : (s.withOwned vars).Below next := by
  intro n hn
  simp only [mentions, List.mem_cons, List.mem_map] at hn
  rcases hn with rfl | rfl | ⟨v, hv, rfl⟩
  · exact h _ (by simp [mentions, Slot.withOwned])
  · exact h _ (by simp [mentions, Slot.withOwned])
  · rcases Shape.mem_children_withOwned hv with hmem | hmem
    · exact hvars v hmem
    · exact h.child hmem

/-- A slot without children that answers for its own node mentions nothing else. -/
theorem below_of_leaf {s : Slot} {next : NodeId} (hbinding : s.binding = s.node)
    (hchildren : s.shape.children = []) (hnode : s.node.raw < next.raw) : s.Below next := by
  intro n hn
  simp only [mentions, hbinding, hchildren, List.map_nil, List.mem_cons, List.not_mem_nil,
    or_false, or_self] at hn
  exact hn ▸ hnode

end Slot

/-! ## Well-formedness -/

namespace Context

/-- A change within the width of ids: the supply has not started over, and every slot has an id of
its own. -/
structure NoOverflow (c c' : Context) : Prop where
  nodes : c.supply.next.raw ≤ c'.supply.next.raw
  slots : c'.size ≤ 2 ^ 32

instance (c c' : Context) : Decidable (NoOverflow c c') :=
  decidable_of_iff (c.supply.next.raw ≤ c'.supply.next.raw ∧ c'.size ≤ 2 ^ 32)
    ⟨fun h => ⟨h.1, h.2⟩, fun h => ⟨h.nodes, h.slots⟩⟩

/-- The slot of the type of a node. -/
def slotOf? (c : Context) (n : NodeId) : Option Slot := (c.typeOf? n).bind c.slot?

theorem slotOf?_eq_some_iff {c : Context} {n : NodeId} {s : Slot} :
    c.slotOf? n = some s ↔ ∃ i, c.typeOf? n = some i ∧ c.slot? i = some s :=
  Option.bind_eq_some_iff

/-- Types were made for the nodes that have them, and what is mentioned has been minted. -/
structure WellFormed (c : Context) : Prop where
  made : ∀ {n i}, c.typeOf? n = some i → ∃ s, c.slot? i = some s ∧ s.node = n
  minted : ∀ {n i}, c.typeOf? n = some i → n.raw < c.supply.next.raw
  below : ∀ {i s}, c.slot? i = some s → s.Below c.supply.next

namespace WellFormed

variable {c : Context}

/-- Different nodes have different types. -/
theorem typeOf?_inj (h : c.WellFormed) {m n : NodeId} {i : SlotId} (hm : c.typeOf? m = some i)
    (hn : c.typeOf? n = some i) : m = n := by
  obtain ⟨s, hs, rfl⟩ := h.made hm
  obtain ⟨t, ht, rfl⟩ := h.made hn
  rw [hs] at ht
  cases ht
  rfl

theorem allocate (h : c.WellFormed) {s : Slot} (hs : s.Below c.supply.next) :
    (c.allocate s).2.WellFormed where
  made hn := by
    obtain ⟨t, ht, hnode⟩ := h.made hn
    exact ⟨t, slot?_allocate_of_some ht, hnode⟩
  minted hn := h.minted hn
  below {i t} ht := by
    rw [slot?_allocate] at ht
    split at ht
    · cases ht
      exact hs
    · exact h.below ht

theorem bindType (h : c.WellFormed) {i : SlotId} {s : Slot} (hs : c.slot? i = some s) :
    (c.bindType s.node i).WellFormed where
  made {n j} hn := by
    rw [typeOf?_bindType] at hn
    split at hn
    · cases hn
      exact ⟨s, hs, ‹_›⟩
    · exact h.made hn
  minted {n j} hn := by
    rw [typeOf?_bindType] at hn
    split at hn
    · rename_i heq
      exact heq ▸ (h.below hs).node
    · exact h.minted hn
  below ht := h.below ht

theorem register (h : c.WellFormed) {s : Slot} (hs : s.Below c.supply.next)
    (hroom : c.size < 2 ^ 32) : (c.register s).2.WellFormed :=
  (h.allocate hs).bindType (slot?_allocate_nextSlot hroom s)

theorem fresh (h : c.WellFormed) (hnext : c.supply.next.raw ≤ c.fresh.2.supply.next.raw) :
    c.fresh.2.WellFormed where
  made hn := h.made hn
  minted hn := UInt32.lt_of_lt_of_le (h.minted hn) hnext
  below hs := (h.below hs).mono hnext

/-- A slot may be changed in place as long as it mentions what it mentioned before. -/
theorem modifySlot (h : c.WellFormed) {i : SlotId} {f : Slot → Slot} {c' : Context}
    (hc : c.modifySlot i f = .ok c')
    (hf : ∀ s, c.slot? i = some s → (f s).mentions = s.mentions) : c'.WellFormed := by
  have hslot : ∀ {j t}, c'.slot? j = some t →
      ∃ s, c.slot? j = some s ∧ t.mentions = s.mentions := by
    intro j t ht
    rw [modifySlot_eq_ok hc, slot?_modify] at ht
    split at ht
    · subst j
      obtain ⟨s, hs, rfl⟩ := Option.map_eq_some_iff.mp ht
      exact ⟨s, hs, hf s hs⟩
    · exact ⟨t, ht, rfl⟩
  have hkept : ∀ {j s}, c.slot? j = some s → ∃ t, c'.slot? j = some t ∧ t.node = s.node := by
    intro j s hs
    rw [modifySlot_eq_ok hc, slot?_modify]
    split
    · subst j
      exact ⟨f s, by rw [hs]; rfl, (List.cons.inj (hf s hs)).1⟩
    · exact ⟨s, hs, rfl⟩
  have hsupply : c'.supply = c.supply := by rw [modifySlot_eq_ok hc]
  have htypes : ∀ n, c'.typeOf? n = c.typeOf? n := by
    intro n
    rw [modifySlot_eq_ok hc]
    rfl
  constructor
  · intro n j hn
    rw [htypes] at hn
    obtain ⟨s, hs, rfl⟩ := h.made hn
    obtain ⟨t, ht, hnode⟩ := hkept hs
    exact ⟨t, ht, hnode⟩
  · intro n j hn
    rw [htypes] at hn
    rw [hsupply]
    exact h.minted hn
  · intro j t ht n hn
    obtain ⟨s, hs, heq⟩ := hslot ht
    rw [hsupply]
    exact h.below hs n (heq ▸ hn)

end WellFormed

/-! ## Copies -/

/-- A fresh node comes after the supply's next one unless the supply starts over. -/
private theorem lt_add_one_of_le {a : UInt32} (h : a ≤ a + 1) : a < a + 1 := by
  rw [UInt32.le_iff_toNat_le, UInt32.toNat_add] at h
  rw [UInt32.lt_iff_toNat_lt, UInt32.toNat_add]
  have ha : a.toNat < 2 ^ 32 := UInt32.toNat_lt a
  have h1 : (1 : UInt32).toNat = 1 := rfl
  omega

theorem CopyStep.wellFormed {c c' : Context} (step : CopyStep c c') (h : c.WellFormed)
    (hno : NoOverflow c c') : c'.WellFormed := by
  cases step with
  | push slot composite typed =>
    apply h.allocate
    apply (h.below slot).withOwned
    intro w hw
    obtain ⟨k, hk⟩ := typed w hw
    exact h.minted hk
  | adopt slot => exact h.bindType slot
  | @rename i s state location locations slot infer =>
    have hroom : c.size < 2 ^ 32 := by
      have := hno.slots
      rw [size_renamed] at this
      omega
    have hnode : c.supply.next.raw < c.fresh.2.supply.next.raw := lt_add_one_of_le hno.nodes
    have hreg := (h.fresh hno.nodes).register
      (s := s.renamedInfer c.supply.next state location)
      (Slot.below_of_leaf rfl rfl hnode) hroom
    exact ⟨hreg.made, hreg.minted, hreg.below⟩

/-- A copy mints at most one node for every slot it makes. -/
theorem CopySteps.minted_le {c c' : Context} (h : CopySteps c c') :
    ∃ k, c'.supply.next.raw.toNat = (c.supply.next.raw.toNat + k) % 2 ^ 32 ∧
      c.size + k ≤ c'.size := by
  induction h with
  | refl =>
    refine ⟨0, ?_, by omega⟩
    have := UInt32.toNat_lt c.supply.next.raw
    omega
  | tail steps step ih =>
    obtain ⟨k, hnext, hsize⟩ := ih
    cases step with
    | push slot composite typed =>
      refine ⟨k, hnext, ?_⟩
      rw [size_allocate]
      omega
    | adopt slot => exact ⟨k, hnext, hsize⟩
    | rename slot infer =>
      refine ⟨k + 1, ?_, ?_⟩
      · rw [next_renamed, UInt32.toNat_add, hnext]
        have h1 : (1 : UInt32).toNat = 1 := rfl
        omega
      · rw [size_renamed]
        omega

/-- What stays within the width of ids as a whole does so in every part. -/
theorem CopySteps.noOverflow_split {c m c' : Context} (hcm : CopySteps c m)
    (hmc : CopySteps m c') (hno : NoOverflow c c') : NoOverflow c m ∧ NoOverflow m c' := by
  obtain ⟨k, hm, hsize⟩ := hcm.minted_le
  obtain ⟨l, hc, hsize'⟩ := hmc.minted_le
  have hslots := hno.slots
  have hnodes := hno.nodes
  rw [UInt32.le_iff_toNat_le] at hnodes
  have hlt := UInt32.toNat_lt c.supply.next.raw
  -- fewer nodes are minted than there are ids, since the store was not empty
  have hkl : k + l < 2 ^ 32 := by
    by_cases hpos : 0 < c'.size
    · have := CopySteps.size_pos (hcm.trans hmc) hpos
      omega
    · omega
  constructor
  · constructor
    · rw [UInt32.le_iff_toNat_le]
      omega
    · omega
  · constructor
    · rw [UInt32.le_iff_toNat_le]
      omega
    · omega

/-- Copying keeps a store well-formed, however far it gets. -/
theorem CopySteps.wellFormed {c c' : Context} (steps : CopySteps c c') (h : c.WellFormed)
    (hno : NoOverflow c c') : c'.WellFormed := by
  induction steps with
  | refl => exact h
  | tail steps step ih =>
    obtain ⟨hfirst, hlast⟩ := CopySteps.noOverflow_split steps (.single step) hno
    exact step.wellFormed (ih hfirst) hlast

/-- Fresh nodes belong to the inference variables that a copy made, one to each. -/
structure FreshlyNamed (c c' : Context) : Prop where
  infer : ∀ {k s}, c'.slot? k = some s → c.supply.next.raw ≤ s.node.raw →
    s.isInfer = true ∧ c'.typeOf? s.node = some k
  fresh : ∀ {k s}, c'.slot? k = some s → c.size ≤ k.index → s.isInfer = true →
    c.supply.next.raw ≤ s.node.raw

theorem WellFormed.freshlyNamed {c : Context} (h : c.WellFormed) : FreshlyNamed c c where
  infer hs hnode := absurd (h.below hs).node (UInt32.not_lt.mpr hnode)
  fresh hs hk _ := absurd (index_lt_of_slot? hs) (Nat.not_lt.mpr hk)

theorem FreshlyNamed.step {c m c' : Context} (h : FreshlyNamed c m) (hm : m.WellFormed)
    (hno : NoOverflow c m) (hno' : NoOverflow m c') (step : CopyStep m c') :
    FreshlyNamed c c' := by
  cases step with
  | @push i s vars slot composite typed =>
    constructor
    · intro k t ht hnode
      rw [slot?_allocate] at ht
      split at ht
      · cases ht
        have := (h.infer slot hnode).1
        simp [composite] at this
      · exact h.infer ht hnode
    · intro k t ht hk hinfer
      rw [slot?_allocate] at ht
      split at ht
      · cases ht
        rw [Slot.isInfer_withOwned, composite] at hinfer
        cases hinfer
      · exact h.fresh ht hk hinfer
  | @adopt j s slot =>
    constructor
    · intro k t ht hnode
      obtain ⟨hinfer, htype⟩ := h.infer ht hnode
      refine ⟨hinfer, ?_⟩
      rw [typeOf?_bindType]
      split
      · -- the adopted slot has a fresh node as well, and only one slot has it
        rename_i heq
        have hj := (h.infer slot (heq ▸ hnode)).2
        rw [heq, htype] at hj
        exact hj.symm
      · exact htype
    · intro k t ht
      exact h.fresh ht
  | @rename i s state location locations slot infer =>
    have hroom : m.size < 2 ^ 32 := by
      have := hno'.slots
      rw [size_renamed] at this
      omega
    -- the new slot is the only one with its node, which no slot mentions so far
    constructor
    · intro k t ht hnode
      rw [slot?_renamed] at ht
      rw [typeOf?_renamed]
      split at ht
      · rename_i hk
        cases ht
        refine ⟨rfl, (if_pos rfl).trans ?_⟩
        exact congrArg some (SlotId.ext ((index_nextSlot hroom).trans hk.symm))
      · rw [if_neg]
        · exact h.infer ht hnode
        · rintro heq
          exact UInt32.lt_irrefl _ (heq ▸ (hm.below ht).node)
    · intro k t ht hk hinfer
      rw [slot?_renamed] at ht
      split at ht
      · cases ht
        exact hno.nodes
      · exact h.fresh ht hk hinfer

theorem CopySteps.freshlyNamed {c c' : Context} (steps : CopySteps c c') (h : c.WellFormed)
    (hno : NoOverflow c c') : FreshlyNamed c c' := by
  induction steps with
  | refl => exact h.freshlyNamed
  | tail steps step ih =>
    obtain ⟨hfirst, hlast⟩ := CopySteps.noOverflow_split steps (.single step) hno
    exact (ih hfirst).step (CopySteps.wellFormed steps h hfirst) hfirst hlast step

/-! ## Finished copies -/

section Finish

variable {α : Type} {c : Context} {x : Copying α}

theorem finish_eq (c : Context) (x : Copying α) :
    (∃ a d, c.finish x = (.ok a, d.commit c) ∧ x.after (.start c) = d) ∨
      ∃ f d, c.finish x = (.error f, d.abandon c) ∧ x.after (.start c) = d := by
  unfold finish Copying.after EStateM.run
  cases x (.start c) with
  | ok a d => exact .inl ⟨a, d, rfl, rfl⟩
  | error f d => exact .inr ⟨f, d, rfl, rfl⟩

/-- A copy that is abandoned leaves slots and nodes behind, but no change of the table. -/
theorem WellFormed.abandon (h : c.WellFormed) {d : Draft} (steps : CopySteps c (d.commit c))
    (hno : NoOverflow c (d.abandon c)) : (d.abandon c).WellFormed := by
  have hcommit : (d.commit c).WellFormed := CopySteps.wellFormed steps h ⟨hno.nodes, hno.slots⟩
  constructor
  · intro n i hn
    obtain ⟨s, hs, hnode⟩ := h.made hn
    exact ⟨s, CopySteps.slot? steps hs, hnode⟩
  · intro n i hn
    exact UInt32.lt_of_lt_of_le (h.minted hn) hno.nodes
  · intro i s hs
    exact hcommit.below hs

theorem WellFormed.finish (h : c.WellFormed)
    (steps : CopySteps c ((x.after (.start c)).commit c)) (hno : NoOverflow c (c.finish x).2) :
    (c.finish x).2.WellFormed := by
  rcases finish_eq c x with ⟨a, d, hx, rfl⟩ | ⟨f, d, hx, rfl⟩
  · rw [hx] at hno ⊢
    exact CopySteps.wellFormed steps h hno
  · rw [hx] at hno ⊢
    exact h.abandon steps hno

/-- The nodes that a copy gives to inference variables had no type before, and if it succeeds each
of them has the variable it was given to. -/
theorem WellFormed.finish_infer (h : c.WellFormed)
    (steps : CopySteps c ((x.after (.start c)).commit c)) (hno : NoOverflow c (c.finish x).2)
    {k : SlotId} {s : Slot} (hk : c.size ≤ k.index) (hs : (c.finish x).2.slot? k = some s)
    (hinfer : s.isInfer = true) :
    c.typeOf? s.node = none ∧
      ((∃ a, (c.finish x).1 = .ok a) → (c.finish x).2.typeOf? s.node = some k) := by
  have hnew : ∀ {d : Draft}, CopySteps c (d.commit c) → NoOverflow c (d.commit c) →
      (d.commit c).slot? k = some s →
      c.typeOf? s.node = none ∧ (d.commit c).typeOf? s.node = some k := by
    intro d hsteps hno hs
    have hnamed := CopySteps.freshlyNamed hsteps h hno
    have hnode := hnamed.fresh hs hk hinfer
    refine ⟨?_, (hnamed.infer hs hnode).2⟩
    cases htype : c.typeOf? s.node with
    | none => rfl
    | some i => exact absurd (h.minted htype) (UInt32.not_lt.mpr hnode)
  rcases finish_eq c x with ⟨a, d, hx, rfl⟩ | ⟨f, d, hx, rfl⟩
  · rw [hx] at hno hs ⊢
    obtain ⟨hnone, hsome⟩ := hnew steps hno hs
    exact ⟨hnone, fun _ => hsome⟩
  · rw [hx] at hno hs ⊢
    refine ⟨(hnew steps ⟨hno.nodes, hno.slots⟩ hs).1, ?_⟩
    rintro ⟨a, ha⟩
    cases ha

end Finish

theorem steps_copy (c : Context) (i : SlotId) :
    CopySteps c (((c.copySlot (c.config.recursionLimit + 1) i).after (.start c)).commit c) :=
  steps_copySlot c _ i (.start c)

theorem steps_copyVar (c : Context) (v : TypeVar) :
    CopySteps c (((c.copyChild (c.copySlot c.config.recursionLimit) v).after (.start c)).commit c) :=
  steps_copyChild (steps_copySlot c _) v (.start c)

end Context

end TypeStore
