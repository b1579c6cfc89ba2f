import Mathlib.Data.Option.Basic
import TypeStore.Context.Concrete
import TypeStore.Proofs.Rendering
import TypeStore.Proofs.WellFormed
import TypeStore.Shape.Owned

/-!
# Stores that mean the same

One store refines another when every node that has a type in the first has a type in the second
that looks alike: the same shape up to owned children, and in place of an owned child either the
same variable or, for an inference variable, another one in the same state. Types may be cyclic,
so the likeness of children is not part of the likeness of types; it is asked of every node at
once.

What a refining store adds cannot be seen: texts and answers to the question for concreteness
stay as they were.
-/

namespace TypeStore

/-! ## Shapes with replaced children -/

/-- Pieces that differ in related children only. -/
inductive Piece.Alike (R : TypeVar → TypeVar → Prop) : Piece → Piece → Prop
  | text (s : String) : Alike R (.text s) (.text s)
  | child {v w : TypeVar} (h : R v w) : Alike R (.child v) (.child w)

/-- Demands that differ in related children only. -/
inductive Demand.Alike (R : TypeVar → TypeVar → Prop) : Demand → Demand → Prop
  | settled (b : Bool) : Alike R (.settled b) (.settled b)
  | all {vs ws : List TypeVar} (h : List.Forall₂ R vs ws) : Alike R (.all vs) (.all ws)
  | fields {vs ws : List TypeVar} (h : List.Forall₂ R vs ws) : Alike R (.fields vs) (.fields ws)
  | closure {p q r r' : TypeVar} (h : R p q) (h' : R r r') :
      Alike R (.closure p r) (.closure q r')

section Replaced

variable {R : TypeVar → TypeVar → Prop}

theorem Piece.alike_commas {vs ws : List TypeVar} (h : List.Forall₂ R vs ws) :
    List.Forall₂ (Piece.Alike R) (Piece.commas vs) (Piece.commas ws) := by
  unfold Piece.commas
  induction h with
  | nil => exact .nil
  | cons hvw htail ih =>
    cases htail with
    | nil => exact .cons (.child hvw) .nil
    | cons _ _ => exact .cons (.child hvw) (.cons (.text ", ") ih)

theorem Adt.names_refill (vs : List Variant) (types : List TypeVar) :
    (refill vs types).map Variant.name = vs.map Variant.name := by
  induction vs generalizing types with
  | nil => rfl
  | cons v vs ih => rw [refill, List.map_cons, List.map_cons, ih]; rfl

theorem Adt.text_withFieldTypes (a : Adt) (types : List TypeVar) :
    (a.withFieldTypes types).text = a.text := by
  unfold text withFieldTypes
  rw [names_refill]

theorem Adt.isUnit_withFieldTypes {a : Adt} {types : List TypeVar}
    (h : types.length = a.fieldTypes.length) : (a.withFieldTypes types).isUnit = a.isUnit := by
  obtain ⟨name, kind, variants, generics⟩ := a
  match variants with
  | [] => rfl
  | [only] =>
    simp only [fieldTypes, List.flatMap_cons, List.flatMap_nil, List.append_nil,
      Variant.length_fieldTypes] at h
    simp only [withFieldTypes, refill, isUnit, Variant.withFieldTypes, ← h, List.take_length]
    cases hfields : only.fields with
    | nil => simp
    | cons f fs =>
      cases types with
      | nil => simp [hfields] at h
      | cons t ts => simp
  | _ :: _ :: _ => rfl

/-- The fields that concreteness looks at are replaced by their own replacements. -/
theorem Adt.inspectedTypes_refill {vs : List Variant} {types : List TypeVar}
    (h : List.Forall₂ R (vs.flatMap Variant.fieldTypes) types) :
    List.Forall₂ R ((vs.filter fun v => v.kind != .enum).flatMap Variant.fieldTypes)
      (((refill vs types).filter fun v => v.kind != .enum).flatMap Variant.fieldTypes) := by
  induction vs generalizing types with
  | nil => exact .nil
  | cons v vs ih =>
    rw [List.flatMap_cons] at h
    have hhead : List.Forall₂ R v.fieldTypes (types.take v.fields.length) := by
      have := List.forall₂_take v.fields.length h
      rwa [List.take_left' v.length_fieldTypes] at this
    have htail : List.Forall₂ R (vs.flatMap Variant.fieldTypes) (types.drop v.fields.length) := by
      have := List.forall₂_drop v.fields.length h
      rwa [List.drop_left' v.length_fieldTypes] at this
    have hfields : (v.withFieldTypes (types.take v.fields.length)).fieldTypes
        = types.take v.fields.length := by
      apply Variant.fieldTypes_withFieldTypes
      rw [← hhead.length_eq, Variant.length_fieldTypes]
    have hkind : (v.withFieldTypes (types.take v.fields.length)).kind = v.kind := rfl
    rw [refill, List.filter_cons, List.filter_cons, hkind]
    split
    · rw [List.flatMap_cons, List.flatMap_cons, hfields]
      exact List.rel_append hhead (ih htail)
    · exact ih htail

/-- What concreteness asks of a shape with replaced children. -/
theorem Shape.demand_withOwned {s : Shape} {vars : List TypeVar} (hR : ∀ v ∈ s.children, R v v)
    (h : List.Forall₂ R s.owned vars) : Demand.Alike R s.demand (s.withOwned vars).demand := by
  have hsame : List.Forall₂ R s.children s.children := List.forall₂_same.mpr hR
  cases s with
  | tuple fields => exact .all h
  | function name params result generics =>
    have howned := owned_withOwned (s := .function name params result generics) h.length_eq.symm
    have hdemand : (withOwned (.function name params result generics) vars).demand
        = .all (withOwned (.function name params result generics) vars).owned := rfl
    rw [hdemand, howned]
    exact .all h
  | closure parameters result generics captures =>
    cases h with
    | cons hvw htail =>
      cases htail
      exact .closure hvw (hR result (by simp [children]))
  | adt a =>
    have hunit := Adt.isUnit_withFieldTypes h.length_eq.symm
    have hgenerics : (a.withFieldTypes vars).generics = a.generics := rfl
    simp only [withOwned, demand, hunit, hgenerics]
    split
    · exact .settled _
    · exact .fields (Adt.inspectedTypes_refill h)
  | functionPointer params result => exact .all hsame
  | array element capacity => exact .all hsame
  | slice element => exact .all hsame
  | reference base mutability => exact .all hsame
  | rawPointer base mutability => exact .all hsame
  | _ => exact .settled _

/-- The text of a slot with replaced children. -/
theorem Slot.layout_withOwned {s t : Slot} {vars : List TypeVar}
    (hR : ∀ v ∈ s.shape.children, R v v) (h : List.Forall₂ R s.shape.owned vars)
    (hshape : t.shape = s.shape.withOwned vars)
    (hbounds : s.isInfer = false → t.bounds = s.bounds) :
    Option.Rel (List.Forall₂ (Piece.Alike R)) s.layout? t.layout? := by
  obtain ⟨node, binding, declaration, bounds, absorbed, shape⟩ := s
  have hsame : ∀ pieces : List Piece, (∀ v, .child v ∈ pieces → v ∈ shape.children) →
      List.Forall₂ (Piece.Alike R) pieces pieces := by
    intro pieces hmem
    refine List.forall₂_same.mpr fun piece hpiece => ?_
    cases piece with
    | text s => exact .text s
    | child v => exact .child (hR v (hmem v hpiece))
  cases shape with
  | tuple fields =>
    simp only [layout?, hshape, Shape.withOwned]
    exact .some (.cons (.text _) (List.rel_append (Piece.alike_commas h) (hsame _ (by simp))))
  | function name params result generics =>
    simp only [layout?, hshape, Shape.withOwned]
    exact .none
  | closure parameters result generics captures =>
    cases h with
    | cons hvw htail =>
      cases htail
      simp only [layout?, hshape, Shape.withOwned]
      refine .some (.cons (.text _) (.cons (.child hvw) (hsame _ ?_)))
      simp [Shape.children]
  | adt a =>
    simp only [layout?, hshape, Shape.withOwned, Adt.text_withFieldTypes]
    exact .some (hsame _ (by simp))
  | dynamic =>
    simp only [layout?, hshape, Shape.withOwned, hbounds rfl]
    exact .some (hsame _ (by simp))
  | functionPointer params result =>
    simp only [layout?, hshape, Shape.withOwned]
    have hparams : List.Forall₂ R params params :=
      List.forall₂_same.mpr fun v hv => hR v (by simp [Shape.children, hv])
    refine .some (.cons (.text _) (List.rel_append (Piece.alike_commas hparams) (hsame _ ?_)))
    simp [Shape.children]
  | _ =>
    simp only [layout?, hshape, Shape.withOwned]
    exact .some (hsame _ (by simp [Shape.children]))

end Replaced

namespace Context

/-! ## Likeness -/

/-- A variable of the second store can replace one of the first: it is the same, or both are
inference variables and in the same state. -/
def StandsFor (c c' : Context) (v w : TypeVar) : Prop :=
  w = v ∨ ∃ s t, c.slotOf? v.node = some s ∧ c'.slotOf? w.node = some t ∧
    s.isInfer = true ∧ t.shape = s.shape

/-- A slot of the second store looks like one of the first. -/
structure Resembles (c c' : Context) (s t : Slot) : Prop where
  shape : ∃ vars, List.Forall₂ (c.StandsFor c') s.shape.owned vars ∧
    t.shape = s.shape.withOwned vars
  named : s.isInfer = false → t.node = s.node ∧ t.bounds = s.bounds

/-- Every node that has a type in the first store has one that looks alike in the second, and no
node gets a type that could have had one before. -/
structure Refines (c c' : Context) : Prop where
  typed : ∀ {n s}, c.slotOf? n = some s → ∃ t, c'.slotOf? n = some t ∧ c.Resembles c' s t
  untyped : ∀ {n}, n.raw < c.supply.next.raw → c.typeOf? n = none → c'.typeOf? n = none
  config : c'.config = c.config

variable {c c' : Context}

theorem Resembles.refl (c c' : Context) (s : Slot) : c.Resembles c' s s where
  shape := ⟨s.shape.owned, List.forall₂_same.mpr fun _ _ => .inl rfl,
    (Shape.withOwned_owned _).symm⟩
  named _ := ⟨rfl, rfl⟩

/-- Inference variables look alike as soon as they are in the same state. -/
theorem Resembles.of_infer {s t : Slot} (hs : s.isInfer = true) (ht : t.shape = s.shape) :
    c.Resembles c' s t where
  shape := by
    refine ⟨s.shape.owned, List.forall₂_same.mpr fun _ _ => .inl rfl, ?_⟩
    rw [Shape.withOwned_owned, ht]
  named hcomposite := by
    rw [hs] at hcomposite
    cases hcomposite

theorem Resembles.isInfer_eq {s t : Slot} (h : c.Resembles c' s t) : t.isInfer = s.isInfer := by
  obtain ⟨⟨vars, -, hshape⟩, -⟩ := h
  rw [← Slot.isInfer_withOwned s vars]
  exact Slot.isInfer_congr hshape

theorem Resembles.shape_eq_of_infer {s t : Slot} (h : c.Resembles c' s t)
    (hs : s.isInfer = true) : t.shape = s.shape := by
  obtain ⟨⟨vars, -, hshape⟩, -⟩ := h
  obtain ⟨state, location, hinfer⟩ := Slot.isInfer_iff.mp hs
  rw [hshape, hinfer]
  rfl

/-- What a child that has a type leads to in either store. -/
theorem Refines.known (h : c.Refines c') (hc : c.WellFormed) {v w : TypeVar}
    (hvw : c.StandsFor c' v w) {i : SlotId} (hi : c.typeOf? v.node = some i) :
    ∃ j s t, c'.typeOf? w.node = some j ∧ c.slot? i = some s ∧ c'.slot? j = some t ∧
      c.Resembles c' s t := by
  obtain ⟨s, hs, -⟩ := hc.made hi
  have hslot : c.slotOf? v.node = some s := slotOf?_eq_some_iff.mpr ⟨i, hi, hs⟩
  rcases hvw with rfl | ⟨s', t, hs', ht, hinfer, hshape⟩
  · obtain ⟨t, ht, hst⟩ := h.typed hslot
    obtain ⟨j, hj, ht⟩ := slotOf?_eq_some_iff.mp ht
    exact ⟨j, s, t, hj, hs, ht, hst⟩
  · rw [hslot] at hs'
    cases hs'
    obtain ⟨j, hj, ht⟩ := slotOf?_eq_some_iff.mp ht
    exact ⟨j, s, t, hj, hs, ht, .of_infer hinfer hshape⟩

/-- A child without a type has none in either store, and it is the same child. -/
theorem Refines.unknown (h : c.Refines c') {v w : TypeVar} (hvw : c.StandsFor c' v w)
    (hv : v.node.raw < c.supply.next.raw) (hnone : c.typeOf? v.node = none) :
    w = v ∧ c'.typeOf? v.node = none := by
  rcases hvw with rfl | ⟨s, t, hs, -⟩
  · exact ⟨rfl, h.untyped hv hnone⟩
  · rw [slotOf?, hnone] at hs
    cases hs

/-! ## Texts -/

theorem layoutOf_of_slot? {i : SlotId} {s : Slot} (hs : c.slot? i = some s) :
    c.layoutOf i = s.layout := by
  rw [layoutOf, slot_eq_ok_iff.mpr hs]
  rfl

theorem isInfer_of_layout?_eq_none {s : Slot} (h : s.layout? = none) : s.isInfer = false := by
  apply Slot.isInfer_eq_false
  intro state location hshape
  rw [Slot.layout?, hshape] at h
  cases h

/-- Slots that look alike are written alike, within any depth that is enough for the first. -/
theorem Refines.writeSlot (h : c.Refines c') (hc : c.WellFormed) {n : Nat} {i j : SlotId}
    {s t : Slot} (hs : c.slot? i = some s) (ht : c'.slot? j = some t) (hst : c.Resembles c' s t)
    (b : String) (hend : ¬ Writing.Endless (c.writeSlot n i b)) :
    c'.writeSlot n j b = c.writeSlot n i b := by
  induction n generalizing i j s t b with
  | zero => exact absurd ⟨i, b, rfl⟩ hend
  | succ n ih =>
    obtain ⟨⟨vars, hvars, hshape⟩, hnamed⟩ := hst
    -- only a child that has been minted is sure to stay without a type
    let R v w := v.node.raw < c.supply.next.raw ∧ c.StandsFor c' v w
    have hminted : ∀ v ∈ s.shape.children, v.node.raw < c.supply.next.raw :=
      fun _ hv => (hc.below hs).child hv
    have hR : List.Forall₂ R s.shape.owned vars :=
      (List.forall₂_and_left _ _).mpr
        ⟨fun v hv => hminted v (Shape.mem_children_of_mem_owned hv), hvars⟩
    have hlayout := Slot.layout_withOwned (fun v hv => ⟨hminted v hv, .inl rfl⟩) hR hshape
      (fun hinfer => (hnamed hinfer).2)
    have hi := layoutOf_of_slot? hs
    have hj := layoutOf_of_slot? ht
    rw [Slot.layout] at hi hj
    cases hleft : s.layout? with
    | none =>
      -- the refusal names the node, which only inference variables change
      rw [hleft] at hlayout hi
      cases hright : t.layout? with
      | some pieces' => rw [hright] at hlayout; cases hlayout
      | none =>
        rw [hright, (hnamed (isInfer_of_layout?_eq_none hleft)).1] at hj
        rw [writeSlot_succ_of_error hi, writeSlot_succ_of_error hj]
    | some pieces =>
      rw [hleft] at hlayout hi
      cases hright : t.layout? with
      | none => rw [hright] at hlayout; cases hlayout
      | some pieces' =>
        rw [hright] at hlayout hj
        rw [writeSlot_succ_of_ok hi] at hend ⊢
        rw [writeSlot_succ_of_ok hj]
        cases hlayout with
        | some hpieces =>
          refine writePieces_match (hpieces.imp ?_) b hend
          intro piece piece' hpiece
          cases hpiece with
          | text s => exact .text s
          | @child v w hR =>
            cases htype : c.typeOf? v.node with
            | none =>
              obtain ⟨rfl, hnone⟩ := h.unknown hR.2 hR.1 htype
              exact .unknown (typeOf_of_none htype) (typeOf_of_none hnone)
            | some k =>
              obtain ⟨l, s', t', hl, hs', ht', hst'⟩ := h.known hc hR.2 htype
              exact .known (typeOf_eq_ok_iff.mpr htype) (typeOf_eq_ok_iff.mpr hl)
                fun b => ih hs' ht' hst' b

theorem Refines.render (h : c.Refines c') (hc : c.WellFormed) {i j : SlotId} {s t : Slot}
    (hs : c.slot? i = some s) (ht : c'.slot? j = some t) (hst : c.Resembles c' s t)
    (hends : c.Ends i) : c'.render j = c.render i := by
  obtain ⟨n, hend⟩ := hends
  exact render_eq_of_writeSlot_eq hend (h.writeSlot hc hs ht hst "" hend)

/-! ## Concreteness -/

theorem allConcrete_cons {check : SlotId → Except Fault Bool} {v : TypeVar}
    {rest : List TypeVar} {b : Bool} :
    c.allConcrete check (v :: rest) = .ok b ↔
      ∃ i first, c.typeOf? v.node = some i ∧ check i = .ok first ∧
        (if first then c.allConcrete check rest else .ok false) = .ok b := by
  rw [allConcrete]
  cases htype : c.typeOf? v.node with
  | none => simp [typeOf_of_none htype]
  | some i =>
    rw [typeOf_eq_ok_iff.mpr htype]
    cases hcheck : check i with
    | error f => simp [hcheck]
    | ok first => cases first <;> simp [hcheck]

/-- Checks that agree on children agree on lists of children. -/
theorem allConcrete_match {check check' : SlotId → Except Fault Bool} {vs ws : List TypeVar}
    (h : List.Forall₂ (fun v w => ∀ i b, c.typeOf? v.node = some i → check i = .ok b →
      ∃ j, c'.typeOf? w.node = some j ∧ check' j = .ok b) vs ws) {b : Bool}
    (hok : c.allConcrete check vs = .ok b) : c'.allConcrete check' ws = .ok b := by
  induction h with
  | nil => exact hok
  | cons head _ ih =>
    rw [allConcrete_cons] at hok ⊢
    obtain ⟨i, first, htype, hcheck, hrest⟩ := hok
    obtain ⟨j, htype', hcheck'⟩ := head i first htype hcheck
    refine ⟨j, first, htype', hcheck', ?_⟩
    cases first with
    | true => exact ih hrest
    | false => exact hrest

theorem demandOf_of_slot? {i : SlotId} {s : Slot} (hs : c.slot? i = some s) :
    c.demandOf i = .ok (s.node, s.shape.demand) := by
  rw [demandOf, slot_eq_ok_iff.mpr hs]
  rfl

theorem isInfer_of_demand_eq_fields {s : Slot} {vars : List TypeVar}
    (h : s.shape.demand = .fields vars) : s.isInfer = false := by
  apply Slot.isInfer_eq_false
  intro state location hshape
  rw [hshape] at h
  cases h

/-- Slots that look alike get the same answer. -/
theorem Refines.concreteWithin (h : c.Refines c') (hc : c.WellFormed) {n : Nat}
    {entered : List NodeId} {i j : SlotId} {s t : Slot} (hs : c.slot? i = some s)
    (ht : c'.slot? j = some t) (hst : c.Resembles c' s t) {b : Bool}
    (hok : c.concreteWithin n entered i = .ok b) : c'.concreteWithin n entered j = .ok b := by
  induction n generalizing entered i j s t b with
  | zero => cases hok
  | succ n ih =>
    obtain ⟨⟨vars, hvars, hshape⟩, hnamed⟩ := hst
    -- the children of a demand, one level down
    have hall : ∀ {entered vs ws b}, List.Forall₂ (c.StandsFor c') vs ws →
        c.allConcrete (c.concreteWithin n entered) vs = .ok b →
        c'.allConcrete (c'.concreteWithin n entered) ws = .ok b := by
      intro entered vs ws b hvs
      refine allConcrete_match (hvs.imp ?_)
      intro v w hvw k b hk hb
      obtain ⟨l, s', t', hl, hs', ht', hst'⟩ := h.known hc hvw hk
      exact ⟨l, hl, ih hs' ht' hst' hb⟩
    have hdemand := Shape.demand_withOwned (fun v _ => .inl rfl) hvars
    rw [← hshape] at hdemand
    simp only [Context.concreteWithin, demandOf_of_slot? hs] at hok
    simp only [Context.concreteWithin, demandOf_of_slot? ht]
    generalize hleft : s.shape.demand = demand at hok hdemand
    generalize t.shape.demand = demand' at hdemand
    cases hdemand with
    | settled b => exact hok
    | all hvs => exact hall hvs hok
    | fields hvs =>
      -- data types are remembered by their nodes, and these are the same
      dsimp only at hok ⊢
      rw [(hnamed (isInfer_of_demand_eq_fields hleft)).1]
      by_cases hmem : entered.contains s.node = true
      · rw [if_pos hmem] at hok ⊢
        exact hok
      · rw [if_neg hmem] at hok ⊢
        exact hall hvs hok
    | @closure p q r r' hp hr =>
      dsimp only at hok ⊢
      cases hparams : c.allConcrete (c.concreteWithin n entered) [p] with
      | error f =>
        rw [hparams] at hok
        cases hok
      | ok first =>
        rw [hparams] at hok
        rw [hall (.cons hp .nil) hparams]
        cases first with
        | true => exact hok
        | false => exact hall (.cons hr .nil) hok

theorem Refines.concrete (h : c.Refines c') (hc : c.WellFormed) {i j : SlotId} {s t : Slot}
    (hs : c.slot? i = some s) (ht : c'.slot? j = some t) (hst : c.Resembles c' s t) {b : Bool}
    (hok : c.concrete i = .ok b) : c'.concrete j = .ok b := by
  rw [Context.concrete, h.config]
  exact h.concreteWithin hc hs ht hst hok

end Context

end TypeStore
