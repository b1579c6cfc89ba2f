import TypeStore.Proofs.Copying.Separation
import TypeStore.Proofs.Range

/-!
# When a copy succeeds

A copy goes down from a slot through owned children and stops at builtin types. It succeeds if it
finds a type for every child and nothing that lies deeper than the recursion limit allows. A child
that it meets again leads to a copy by then, and the copy is copied; but a copy is as deep as what
it was copied from, so the store from before tells how the whole copy ends.
-/

namespace TypeStore

namespace Context

/-! ## Depth -/

/-- A child has a type, which is builtin or satisfies a condition. -/
def ChildMeets (c : Context) (P : SlotId → Prop) (v : TypeVar) : Prop :=
  ∃ k, c.typeOf? v.node = some k ∧ (c.isBuiltin k = true ∨ P k)

/-- A slot of at most so many levels, counted along owned children that are not builtin, all of
which have a type. -/
def Copyable (c : Context) : Nat → SlotId → Prop
  | 0, _ => False
  | levels + 1, i => ∃ s, c.slot? i = some s ∧
      ∀ v ∈ s.shape.owned, c.ChildMeets (Copyable c levels) v

variable {c c' : Context} {i k : SlotId} {s : Slot} {v w : TypeVar} {levels : Nat}

theorem copyable_succ_iff (hs : c.slot? i = some s) :
    c.Copyable (levels + 1) i ↔ ∀ v ∈ s.shape.owned, c.ChildMeets (c.Copyable levels) v := by
  constructor
  · intro h
    obtain ⟨t, ht, hchildren⟩ := h
    rw [hs] at ht
    cases ht
    exact hchildren
  · intro h
    exact ⟨s, hs, h⟩

/-- An inference variable has one level. -/
theorem copyable_iff_of_isInfer (hs : c.slot? i = some s) (hinfer : s.isInfer = true) :
    c.Copyable levels i ↔ 0 < levels := by
  obtain ⟨state, location, hshape⟩ := Slot.isInfer_iff.mp hinfer
  cases levels with
  | zero => simp [Copyable]
  | succ levels =>
    rw [copyable_succ_iff hs, hshape]
    simp [Shape.owned]

theorem childMeets_iff_of_own {P : SlotId → Prop} (hk : c.typeOf? v.node = some k)
    (hown : c.isBuiltin k = false) : c.ChildMeets P v ↔ P k := by
  simp [ChildMeets, hk, hown]

/-! ## Copies are as deep as what they were copied from -/

theorem InRange.isBuiltin_eq_false (h : c.InRange) (hk : c.size ≤ k.index) :
    c.isBuiltin k = false := by
  rw [Bool.eq_false_iff]
  intro hbuiltin
  have hhas : k.index < c.size := h.builtins k (List.contains_iff_mem.mp hbuiltin)
  omega

/-- A fresh node in a copy leads to a new inference variable. -/
theorem Derived.exists_infer (hd : c.Derived c') (hc : c.WellFormed) (hno : NoOverflow c c')
    (hpos : 0 < c.size) (hrange : c.InRange) (hsettled : c.Settled c' w)
    (hminted : c.Minted c' w.node) :
    ∃ k t, c'.typeOf? w.node = some k ∧ c'.isBuiltin k = false ∧ c'.slot? k = some t ∧
      t.isInfer = true := by
  have hfresh := hminted.next_le hno hpos
  obtain ⟨k, hk⟩ : ∃ k, c'.typeOf? w.node = some k := by
    rcases hsettled with ⟨k, hk, -⟩ | ⟨k, -, hk, -⟩
    · exact ⟨k, hk⟩
    · exact ⟨k, hk⟩
  obtain ⟨t, ht, hnode⟩ := (CopySteps.wellFormed hd.steps hc hno).made hk
  rw [← hnode] at hfresh
  have hinfer := ((CopySteps.freshlyNamed hd.steps hc hno).infer ht hfresh).1
  refine ⟨k, t, hk, ?_, ht, hinfer⟩
  -- an old slot was made for an old node
  have hnew : c.size ≤ k.index := by
    by_contra hold
    have hslot := CopySteps.slot?_of_lt hd.steps (Nat.not_le.mp hold) ht
    exact UInt32.not_lt.mpr hfresh (hc.below hslot).node
  rw [CopySteps.isBuiltin_eq hd.steps]
  exact hrange.isBuiltin_eq_false hnew

theorem forall_mem_iff {α β : Type} {R : α → β → Prop} {P : α → Prop} {Q : β → Prop} {l : List α}
    {m : List β} (h : List.Forall₂ R l m) (hPQ : ∀ a ∈ l, ∀ b ∈ m, R a b → (P a ↔ Q b)) :
    (∀ a ∈ l, P a) ↔ ∀ b ∈ m, Q b := by
  constructor
  · intro hl b hb
    obtain ⟨a, ha, hab⟩ := exists_mem_left h hb
    exact (hPQ a ha b hb hab).mp (hl a ha)
  · intro hm a ha
    obtain ⟨b, hb, hab⟩ := exists_mem_right h ha
    exact (hPQ a ha b hb hab).mpr (hm b hb)

section Depth

variable (hd : c.Derived c') (hc : c.WellFormed) (hno : NoOverflow c c') (hrange : c.InRange)

include hd hc hno hrange

/-- A node in use leads to what it led to or to a copy of it, so it is enough to compare these. -/
theorem Derived.childMeets_iff {P P' : SlotId → Prop} (hv : c.Uses v.node)
    (hsame : ∀ k s, c.slot? k = some s → (P' k ↔ P k))
    (hcopy : ∀ a s b t, c.slot? a = some s → c.size ≤ b.index → c'.slot? b = some t →
      c.CopyOf c' s t → (P' b ↔ P a)) :
    c'.ChildMeets P' v ↔ c.ChildMeets P v := by
  have hrebound : c.Rebound c' := hd.rebound .refl fun _ => rfl
  rcases hc.rebound hno (hc.size_pos hv) hrebound hv with
    htype | ⟨a, s, b, t, ha, hown, hs, hb, hnew, ht, hst⟩
  · cases hk : c.typeOf? v.node with
    | none => simp [ChildMeets, htype, hk]
    | some k =>
      obtain ⟨s, hs, -⟩ := hc.made hk
      simp [ChildMeets, htype, hk, CopySteps.isBuiltin_eq hd.steps, hsame k s hs]
  · have hown' : c'.isBuiltin b = false :=
      (CopySteps.isBuiltin_eq hd.steps b).trans (hrange.isBuiltin_eq_false hnew)
    rw [childMeets_iff_of_own hb hown', childMeets_iff_of_own ha hown]
    exact hcopy a s b t hs hnew ht hst

/-- What stands in a copy for a child is as deep as the child. -/
theorem Derived.childMeets_iff_of_childCopy
    (ih : ∀ {v : TypeVar}, c.Uses v.node →
      (c'.ChildMeets (c'.Copyable levels) v ↔ c.ChildMeets (c.Copyable levels) v))
    (hv : c.Uses v.node) (hw : c.Settled c' w) (hvw : c.ChildCopy c' v w) :
    c.ChildMeets (c.Copyable levels) v ↔ c'.ChildMeets (c'.Copyable levels) w := by
  cases hvw with
  | same => exact (ih hv).symm
  | fresh minted infer =>
    -- an inference variable on either side
    have hpos := hc.size_pos hv
    rcases infer with ⟨n, huses, hminted⟩ | ⟨i, s, type, own, slot, hinfer⟩
    · exact absurd hminted (hc.not_minted hno hpos huses)
    · obtain ⟨k, t, hk, hown, ht, hinfer'⟩ := hd.exists_infer hc hno hpos hrange hw minted
      obtain ⟨s', hs', -⟩ := hc.made type
      have hsame := CopySteps.slot? hd.steps hs'
      rw [slot] at hsame
      cases hsame
      rw [childMeets_iff_of_own type own, childMeets_iff_of_own hk hown,
        copyable_iff_of_isInfer hs' hinfer, copyable_iff_of_isInfer ht hinfer']
  | @named i s type own slot composite =>
    obtain ⟨s', hs', hnode⟩ := hc.made type
    have hsame := CopySteps.slot? hd.steps hs'
    rw [slot] at hsame
    cases hsame
    rw [hnode]
    exact (ih hv).symm

/-- After children were copied, a node in use leads to something as deep as before. -/
theorem Derived.childMeets_copyable_iff (levels : Nat) (hv : c.Uses v.node) :
    c'.ChildMeets (c'.Copyable levels) v ↔ c.ChildMeets (c.Copyable levels) v := by
  induction levels generalizing v with
  | zero => exact hd.childMeets_iff hc hno hrange hv (fun _ _ _ => .rfl) fun _ _ _ _ _ _ _ _ => .rfl
  | succ levels ih =>
    refine hd.childMeets_iff hc hno hrange hv ?_ ?_
    · intro k s hs
      rw [copyable_succ_iff hs, copyable_succ_iff (CopySteps.slot? hd.steps hs)]
      exact forall₂_congr fun u hu => ih (uses_of_mem_owned hs hu)
    · intro a s b t hs hnew ht hst
      obtain ⟨ws, hws, hshape⟩ := hst.shape
      have howned : t.shape.owned = ws := by
        rw [hshape, Shape.owned_withOwned hws.length_eq.symm]
      rw [copyable_succ_iff hs, copyable_succ_iff ht, howned]
      refine (forall_mem_iff hws ?_).symm
      intro u hu w hw huw
      exact hd.childMeets_iff_of_childCopy hc hno hrange ih (uses_of_mem_owned hs hu)
        (hd.children hnew ht w (howned ▸ hw)) huw

end Depth

end Context

/-! ## Runs that succeed -/

namespace Copying

variable {α β : Type} {c : Context} {d d₁ : Draft} {x y : Copying α} {f : α → Copying β}

/-- A run that ends with an answer. -/
def Succeeds (x : Copying α) (d : Draft) : Prop := ∃ a d₁, x d = .ok a d₁

theorem succeeds_congr (h : x d = y d) : x.Succeeds d ↔ y.Succeeds d := by
  rw [Succeeds, Succeeds, h]

theorem after_congr (h : x d = y d) : x.after d = y.after d := by
  rw [after, after, h]

theorem succeeds_bind_iff :
    (x >>= f).Succeeds d ↔ ∃ a d₁, x d = .ok a d₁ ∧ (f a).Succeeds d₁ := by
  constructor
  · rintro ⟨b, d₂, h⟩
    obtain ⟨a, d₁, hx, hf⟩ := bind_eq_ok h
    exact ⟨a, d₁, hx, b, d₂, hf⟩
  · rintro ⟨a, d₁, hx, b, d₂, hf⟩
    exact ⟨b, d₂, (bind_of_ok hx).trans hf⟩

/-- What cannot fail after a computation adds nothing to the condition for its success. -/
theorem succeeds_bind_iff_left (h : ∀ a d₁, x d = .ok a d₁ → (f a).Succeeds d₁) :
    (x >>= f).Succeeds d ↔ x.Succeeds d := by
  rw [succeeds_bind_iff]
  constructor
  · rintro ⟨a, d₁, hx, -⟩
    exact ⟨a, d₁, hx⟩
  · rintro ⟨a, d₁, hx⟩
    exact ⟨a, d₁, hx, h a d₁ hx⟩

theorem target_of_typeOf? {v : TypeVar} {i : SlotId}
    (h : (d.commit c).typeOf? v.node = some i) : target c v d = .ok i d := by
  rw [Draft.typeOf?_commit] at h
  unfold target Context.typeOf
  cases hnote : d.bindings.lookup v.node with
  | some j =>
    rw [hnote] at h
    cases h
    rfl
  | none =>
    rw [hnote, Option.none_or] at h
    rw [h]

theorem succeeds_adopt {j : SlotId} (hj : (d.commit c).Has j) : (adopt j).Succeeds d := by
  obtain ⟨s, hs, -⟩ := Context.exists_draftSlot hj
  exact ⟨_, _, bind_of_ok hs⟩

/-- A sequence stays within the width of ids only if its parts do. -/
theorem noOverflow_bind (hx : Context.CopySteps (d.commit c) ((x.after d).commit c))
    (hf : ∀ a d₁, x d = .ok a d₁ → Context.CopySteps (d₁.commit c) (((f a).after d₁).commit c))
    (hno : Context.NoOverflow (d.commit c) (((x >>= f).after d).commit c)) :
    Context.NoOverflow (d.commit c) ((x.after d).commit c) ∧
      ∀ a d₁, x d = .ok a d₁ → Context.NoOverflow (d₁.commit c) (((f a).after d₁).commit c) := by
  cases hrun : x d with
  | ok a d₁ =>
    have hafter : (x >>= f).after d = (f a).after d₁ := by
      rw [after, bind_of_ok hrun, after]
    rw [hafter] at hno
    rw [after_of_ok hrun] at hx ⊢
    obtain ⟨hfirst, hrest⟩ := Context.CopySteps.noOverflow_split hx (hf a d₁ hrun) hno
    refine ⟨hfirst, ?_⟩
    rintro _ _ ⟨⟩
    exact hrest
  | error e d₁ =>
    rw [after_of_error (bind_of_error hrun)] at hno
    rw [after_of_error hrun]
    refine ⟨hno, ?_⟩
    rintro _ _ ⟨⟩

end Copying

namespace Context

variable {c : Context} {d d' : Draft} {i : SlotId} {v : TypeVar} {fuel : Nat}

/-- A draft that a copy can go on from. -/
structure Sound (c : Context) (d : Draft) : Prop where
  wellFormed : (d.commit c).WellFormed
  inRange : (d.commit c).InRange

theorem Sound.step (h : c.Sound d) (steps : CopySteps (d.commit c) (d'.commit c))
    (hno : NoOverflow (d.commit c) (d'.commit c)) : c.Sound d' :=
  ⟨CopySteps.wellFormed steps h.wellFormed hno, CopySteps.inRange steps h.inRange⟩

/-- From a draft that can be gone on from, slots of the right depth, and no others, are copied. -/
def DepthDecides (c : Context) (fuel : Nat) : Prop :=
  ∀ {i d}, c.Sound d → NoOverflow (d.commit c) (((c.copySlot fuel i).after d).commit c) →
    ((c.copySlot fuel i).Succeeds d ↔ (d.commit c).Copyable fuel i)

theorem copyChild_of_isBuiltin {copy : SlotId → Copying SlotId}
    (htype : (d.commit c).typeOf? v.node = some i) (hbuiltin : c.isBuiltin i = true) :
    c.copyChild copy v d = .ok v d := by
  rw [copyChild, Copying.bind_of_ok (Copying.target_of_typeOf? htype), if_pos hbuiltin]
  rfl

theorem succeeds_copyChild_iff (hcopy : c.DepthDecides fuel) (hd : c.Sound d)
    (hno : NoOverflow (d.commit c) (((c.copyChild (c.copySlot fuel) v).after d).commit c)) :
    (c.copyChild (c.copySlot fuel) v).Succeeds d ↔
      (d.commit c).ChildMeets ((d.commit c).Copyable fuel) v := by
  cases htype : (d.commit c).typeOf? v.node with
  | none =>
    have hfails : ¬ (c.copyChild (c.copySlot fuel) v).Succeeds d := by
      rintro ⟨w, d', h⟩
      obtain ⟨i, d₁, htarget, -⟩ := Copying.bind_eq_ok h
      obtain ⟨-, hi⟩ := Copying.target_eq_ok htarget
      rw [htype] at hi
      cases hi
    simp [hfails, ChildMeets, htype]
  | some i =>
    cases hbuiltin : c.isBuiltin i with
    | true =>
      exact iff_of_true ⟨v, d, copyChild_of_isBuiltin htype hbuiltin⟩ ⟨i, htype, .inl hbuiltin⟩
    | false =>
      have hrun : c.copyChild (c.copySlot fuel) v d
          = (c.copySlot fuel i >>= Copying.adopt) d := by
        rw [copyChild, Copying.bind_of_ok (Copying.target_of_typeOf? htype),
          if_neg (by simp [hbuiltin])]
      rw [Copying.after_congr hrun] at hno
      obtain ⟨hno, -⟩ := Copying.noOverflow_bind (steps_copySlot c fuel i d)
        (fun j d₁ _ => Copying.steps_adopt j d₁) hno
      rw [Copying.succeeds_congr hrun, Copying.succeeds_bind_iff_left,
        childMeets_iff_of_own htype hbuiltin]
      · exact hcopy hd hno
      · -- the copy was put into the arena, so it can be adopted
        intro j d₁ hj
        have hground := grounded_copySlot hd.inRange fuel (hd.inRange.types _ _ htype)
        rw [hj] at hground
        exact Copying.succeeds_adopt hground.2

theorem succeeds_copyChildren_iff (hcopy : c.DepthDecides fuel) (hd : c.Sound d)
    {vars : List TypeVar} (hvars : ∀ v ∈ vars, (d.commit c).Uses v.node)
    (hno : NoOverflow (d.commit c) (((c.copyChildren (c.copySlot fuel) vars).after d).commit c)) :
    (c.copyChildren (c.copySlot fuel) vars).Succeeds d ↔
      ∀ v ∈ vars, (d.commit c).ChildMeets ((d.commit c).Copyable fuel) v := by
  have hsteps := steps_copySlot c fuel
  induction vars generalizing d with
  | nil => exact iff_of_true ⟨[], d, rfl⟩ (by simp)
  | cons v rest ih =>
    obtain ⟨hno₁, hno₂⟩ := Copying.noOverflow_bind (steps_copyChild hsteps v d)
      (fun w d₁ _ => Copying.steps_bind (steps_copyChildren hsteps rest d₁) fun _ _ _ => .refl) hno
    -- the other children are asked for in another store, in which they are as deep
    have htail : ∀ w d₁, c.copyChild (c.copySlot fuel) v d = .ok w d₁ →
        ((c.copyChildren (c.copySlot fuel) rest >>= fun ws => return w :: ws).Succeeds d₁ ↔
          ∀ u ∈ rest, (d.commit c).ChildMeets ((d.commit c).Copyable fuel) u) := by
      intro w d₁ hhead
      have hsteps₁ := steps_copyChild hsteps v d
      rw [Copying.after_of_ok hhead] at hsteps₁ hno₁
      have hderived := (copied_copyChild (fun _ _ _ _ => copied_copySlot c) hhead hno₁.slots
        .nil).derived (.refl _)
      have hrest : ∀ u ∈ rest, (d.commit c).Uses u.node := fun u hu =>
        hvars u (List.mem_cons_of_mem _ hu)
      obtain ⟨hno₃, -⟩ := Copying.noOverflow_bind (steps_copyChildren hsteps rest d₁)
        (fun _ _ _ => .refl) (hno₂ w d₁ hhead)
      refine (Copying.succeeds_bind_iff_left fun ws d₂ _ => ⟨w :: ws, d₂, rfl⟩).trans ?_
      refine (ih (hd.step hsteps₁ hno₁) (fun u hu => CopySteps.uses hsteps₁ (hrest u hu))
        hno₃).trans ?_
      exact forall₂_congr fun u hu =>
        hderived.1.childMeets_copyable_iff hd.wellFormed hno₁ hd.inRange fuel (hrest u hu)
    rw [List.forall_mem_cons, ← succeeds_copyChild_iff hcopy hd hno₁, copyChildren,
      Copying.succeeds_bind_iff]
    constructor
    · rintro ⟨w, d₁, hhead, hrest⟩
      exact ⟨⟨w, d₁, hhead⟩, (htail w d₁ hhead).mp hrest⟩
    · rintro ⟨⟨w, d₁, hhead⟩, hrest⟩
      exact ⟨w, d₁, hhead, (htail w d₁ hhead).mpr hrest⟩

/-- A copy on some fuel succeeds if the slot has no more levels. -/
theorem depthDecides (c : Context) (fuel : Nat) : c.DepthDecides fuel := by
  induction fuel with
  | zero =>
    intro i d _ _
    refine iff_of_false ?_ id
    rintro ⟨j, d', h⟩
    obtain ⟨s, d₁, -, h⟩ := Copying.bind_eq_ok h
    cases h
  | succ fuel ih =>
    intro i d hd hno
    cases hs : (d.commit c).slot? i with
    | none =>
      refine iff_of_false ?_ ?_
      · rintro ⟨j, d', h⟩
        obtain ⟨s, d₁, hslot, -⟩ := Copying.bind_eq_ok h
        obtain ⟨-, hs'⟩ := Copying.slot_eq_ok (c := c) hslot
        rw [hs] at hs'
        cases hs'
      · rintro ⟨s, hs', -⟩
        rw [hs] at hs'
        cases hs'
    | some s =>
      have hslot := Copying.slot_of_slot? hs
      cases hinfer : s.isInfer with
      | true =>
        obtain ⟨state, location, hshape⟩ := Slot.isInfer_iff.mp hinfer
        refine iff_of_true ⟨_, _, copySlot_of_infer hslot hshape⟩ ?_
        exact (copyable_iff_of_isInfer hs hinfer).mpr (Nat.succ_pos fuel)
      | false =>
        have hrun : c.copySlot (fuel + 1) i d = _ := copySlot_of_composite hslot hinfer
        rw [Copying.after_congr hrun] at hno
        have hsteps := steps_copyChildren (steps_copySlot c fuel) s.shape.owned d
        obtain ⟨hno, -⟩ := Copying.noOverflow_bind hsteps (fun us d₁ hus => by
          rw [Copying.after_of_ok hus] at hsteps
          exact .single (.push (hsteps.slot? hs) hinfer
            (typed_copyChildren (steps_copySlot c fuel) hus))) hno
        rw [Copying.succeeds_congr hrun, Copying.succeeds_bind_iff_left, copyable_succ_iff hs]
        · exact succeeds_copyChildren_iff ih hd (fun v hv => uses_of_mem_owned hs hv) hno
        · exact fun us d₁ _ => ⟨_, _, rfl⟩

/-! ## Whole copies -/

theorem noOverflow_of_finish {α : Type} {x : Copying α} (hno : NoOverflow c (c.finish x).2) :
    NoOverflow c ((x.after (.start c)).commit c) := by
  rcases finish_eq c x with ⟨a, d, hx, rfl⟩ | ⟨f, d, hx, rfl⟩
  · rw [hx] at hno
    exact hno
  · rw [hx] at hno
    exact ⟨hno.nodes, hno.slots⟩

theorem finish_fst_eq_ok_iff {α : Type} {x : Copying α} :
    (∃ a, (c.finish x).1 = .ok a) ↔ x.Succeeds (.start c) := by
  unfold finish EStateM.run Copying.Succeeds
  cases x (.start c) with
  | ok a d => simp
  | error f d => simp

theorem WellFormed.sound (hc : c.WellFormed) (hbuiltins : ∀ i ∈ c.builtins.slots, c.Has i) :
    c.Sound (.start c) :=
  ⟨hc, hc.typesExist, hbuiltins⟩

/-! ## Paths -/

/-- So many steps lead from one slot to another, each to an owned child that is not builtin. -/
inductive Descends (c : Context) : Nat → SlotId → SlotId → Prop
  | here {i : SlotId} : Descends c 0 i i
  | down {n : Nat} {i m k : SlotId} (owns : c.Owns i m) (tail : Descends c n m k) :
      Descends c (n + 1) i k

/-- Every owned child has a type. -/
def ChildrenTyped (c : Context) (i : SlotId) : Prop :=
  ∀ s, c.slot? i = some s → ∀ v ∈ s.shape.owned, ∃ k, c.typeOf? v.node = some k

/-- Every path down from a slot has at most so many steps and meets no child without a type. -/
def WithinDepth (c : Context) (depth : Nat) (i : SlotId) : Prop :=
  ∀ n k, c.Descends n i k → n ≤ depth ∧ c.ChildrenTyped k

theorem copyable_succ_iff_owns {levels : Nat} (hi : c.Has i) :
    c.Copyable (levels + 1) i ↔
      c.ChildrenTyped i ∧ ∀ k, c.Owns i k → c.Copyable levels k := by
  obtain ⟨s, hs⟩ := exists_slot?_of_index_lt hi
  rw [copyable_succ_iff hs]
  constructor
  · intro h
    refine ⟨?_, ?_⟩
    · intro t ht v hv
      rw [hs] at ht
      cases ht
      obtain ⟨k, hk, -⟩ := h v hv
      exact ⟨k, hk⟩
    · rintro k ⟨t, v, ht, hv, hk, hown⟩
      rw [hs] at ht
      cases ht
      exact (childMeets_iff_of_own hk hown).mp (h v hv)
  · rintro ⟨htyped, howns⟩ v hv
    obtain ⟨k, hk⟩ := htyped s hs v hv
    cases hbuiltin : c.isBuiltin k with
    | true => exact ⟨k, hk, .inl hbuiltin⟩
    | false => exact ⟨k, hk, .inr (howns k ⟨s, v, hs, hv, hk, hbuiltin⟩)⟩

theorem withinDepth_iff {depth : Nat} :
    c.WithinDepth depth i ↔
      c.ChildrenTyped i ∧ ∀ k, c.Owns i k → ∃ rest, depth = rest + 1 ∧ c.WithinDepth rest k := by
  constructor
  · intro h
    refine ⟨(h 0 i .here).2, ?_⟩
    intro k howns
    obtain ⟨hpos, -⟩ := h 1 k (.down howns .here)
    obtain ⟨rest, rfl⟩ := Nat.exists_eq_add_one.mpr hpos
    refine ⟨rest, rfl, ?_⟩
    intro n l hl
    obtain ⟨hle, htyped⟩ := h (n + 1) l (.down howns hl)
    exact ⟨Nat.le_of_succ_le_succ hle, htyped⟩
  · rintro ⟨htyped, howns⟩ n l hl
    cases hl with
    | here => exact ⟨Nat.zero_le depth, htyped⟩
    | down hk tail =>
      obtain ⟨rest, rfl, hrest⟩ := howns _ hk
      obtain ⟨hle, htyped⟩ := hrest _ l tail
      exact ⟨Nat.succ_le_succ hle, htyped⟩

/-- A slot alone is one level and no step. -/
theorem copyable_succ_iff_withinDepth (hc : c.WellFormed) {depth : Nat} (hi : c.Has i) :
    c.Copyable (depth + 1) i ↔ c.WithinDepth depth i := by
  induction depth generalizing i with
  | zero =>
    rw [copyable_succ_iff_owns hi, withinDepth_iff]
    simp [Copyable]
  | succ depth ih =>
    rw [copyable_succ_iff_owns hi, withinDepth_iff]
    refine and_congr_right fun _ => forall₂_congr fun k howns => ?_
    obtain ⟨s, v, -, -, hk, -⟩ := howns
    rw [ih (hc.typesExist _ _ hk)]
    simp

/-- From a slot that leads into a cycle a step leads to another one. -/
theorem exists_owns_of_cycle {k : SlotId} (hk : c.Reaches i k)
    (hcycle : Relation.TransGen c.Owns k k) : ∃ m, c.Owns i m ∧ c.Reaches m k := by
  rcases Relation.ReflTransGen.cases_head hk with rfl | h
  · exact Relation.TransGen.head'_iff.mp hcycle
  · exact h

theorem not_withinDepth_of_cycle {depth : Nat} {k : SlotId} (hk : c.Reaches i k)
    (hcycle : Relation.TransGen c.Owns k k) : ¬ c.WithinDepth depth i := by
  intro h
  induction depth generalizing i with
  | zero =>
    obtain ⟨m, howns, -⟩ := exists_owns_of_cycle hk hcycle
    obtain ⟨rest, hrest, -⟩ := (withinDepth_iff.mp h).2 m howns
    cases hrest
  | succ depth ih =>
    obtain ⟨m, howns, hreach⟩ := exists_owns_of_cycle hk hcycle
    obtain ⟨rest, hrest, hwithin⟩ := (withinDepth_iff.mp h).2 m howns
    cases hrest
    exact ih hreach hwithin

/-- From a slot of the arena, a copy succeeds if no path down is longer than the recursion limit
and every child on the way has a type; so it fails if it can go around in a cycle. A copy of what a
variable refers to begins one step above that slot: it has one step less, and none if the limit is
zero, but a builtin type is handed out as it is. -/
theorem copy_succeeds_iff_within_depth {c : Context} (hc : c.WellFormed)
    (hbuiltins : ∀ i ∈ c.builtins.slots, c.Has i) :
    (∀ i, c.Has i → NoOverflow c (c.copy i).2 →
      ((∃ j, (c.copy i).1 = .ok j) ↔ c.WithinDepth c.config.recursionLimit i) ∧
      ((∃ k, c.Reaches i k ∧ Relation.TransGen c.Owns k k) → ∃ f, (c.copy i).1 = .error f)) ∧
    ∀ v i, c.typeOf? v.node = some i →
      (c.isBuiltin i = true → c.copyVar v = (.ok v, c)) ∧
      (c.isBuiltin i = false → NoOverflow c (c.copyVar v).2 →
        ((∃ w, (c.copyVar v).1 = .ok w) ↔
          ∃ rest, c.config.recursionLimit = rest + 1 ∧ c.WithinDepth rest i)) := by
  have hsound := hc.sound hbuiltins
  refine ⟨?_, ?_⟩
  · intro i hi hno
    have hiff : (∃ j, (c.copy i).1 = .ok j) ↔ c.WithinDepth c.config.recursionLimit i := by
      rw [copy, finish_fst_eq_ok_iff, depthDecides c _ hsound (noOverflow_of_finish hno)]
      exact copyable_succ_iff_withinDepth hc hi
    refine ⟨hiff, ?_⟩
    rintro ⟨k, hreach, hcycle⟩
    cases hcopy : (c.copy i).1 with
    | ok j => exact absurd (hiff.mp ⟨j, hcopy⟩) (not_withinDepth_of_cycle hreach hcycle)
    | error f => exact ⟨f, rfl⟩
  · intro v i hi
    refine ⟨?_, ?_⟩
    · intro hbuiltin
      have hrun : c.copyChild (c.copySlot c.config.recursionLimit) v (.start c)
          = .ok v (.start c) := copyChild_of_isBuiltin hi hbuiltin
      rw [copyVar, finish, EStateM.run, hrun]
      rfl
    · intro hown hno
      have hcopies := succeeds_copyChild_iff (depthDecides c c.config.recursionLimit) hsound
        (noOverflow_of_finish hno)
      rw [copyVar, finish_fst_eq_ok_iff, hcopies]
      refine (childMeets_iff_of_own hi hown).trans ?_
      cases hlimit : c.config.recursionLimit with
      | zero => simp [Copyable]
      | succ rest =>
        rw [show (Draft.start c).commit c = c from rfl,
          copyable_succ_iff_withinDepth hc (hc.typesExist _ _ hi)]
        simp

/-- The same tuples in a store with a recursion limit of two. -/
def shallowTuples : Context := (new { Config.standard with recursionLimit := 2 }).run nestTuples

theorem reached_shallowTuples : shallowTuples.Reached := by
  refine ⟨{ Config.standard with recursionLimit := 2 }, nestTuples, ?_, ⟨trivial, ?_,
    show Slot.Below _ _ from ?_, ?_, trivial, ?_, show Slot.Below _ _ from ?_, ?_, trivial, ?_,
    show Slot.Below _ _ from ?_, ?_, trivial⟩, rfl⟩
  all_goals decide +kernel

/-- The inference variable is two steps below the outer tuple, which the limit just allows; for
what the node of that tuple refers to it is one too many. -/
theorem shallowTuples_copy_succeeds :
    shallowTuples.WellFormed ∧ (shallowTuples.copy ⟨21⟩).1 = .ok ⟨24⟩ ∧
      shallowTuples.WithinDepth 2 ⟨21⟩ ∧
      (shallowTuples.copyVar ⟨⟨47⟩⟩).1 = .error (.error (.limitExceeded ⟨45⟩ 2)) ∧
      ¬ shallowTuples.WithinDepth 1 ⟨21⟩ := by
  have hwf := Reached.wellFormed reached_shallowTuples
  have hcopy : (shallowTuples.copy ⟨21⟩).1 = .ok ⟨24⟩ := by decide +kernel
  have hfails : (shallowTuples.copyVar ⟨⟨47⟩⟩).1 = .error (.error (.limitExceeded ⟨45⟩ 2)) := by
    decide +kernel
  obtain ⟨hslots, hvars⟩ := copy_succeeds_iff_within_depth hwf (by decide +kernel)
  obtain ⟨hiff, -⟩ := hslots ⟨21⟩ (by decide +kernel) (by decide +kernel)
  obtain ⟨-, hvar⟩ := hvars ⟨⟨47⟩⟩ ⟨21⟩ (by decide +kernel)
  have hvar := hvar (by decide +kernel) (by decide +kernel)
  refine ⟨hwf, hcopy, hiff.mp ⟨_, hcopy⟩, hfails, ?_⟩
  intro hwithin
  obtain ⟨w, hw⟩ := hvar.mpr ⟨1, rfl, hwithin⟩
  rw [hfails] at hw
  cases hw

end Context

end TypeStore
