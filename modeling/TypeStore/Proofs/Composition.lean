import Mathlib.Data.Fintype.EquivFin
import Mathlib.Order.WellFounded
import TypeStore.Proofs.Growth
import TypeStore.Proofs.Resemblance
import TypeStore.Proofs.Resolution

/-!
# Texts are put together from texts

Writing a type threads one buffer through all of its children and stops at the first thing that
cannot be written. This module says the same without a buffer. The text of a type is the text of
its kind with the texts of its children in place (`Slot.textBy?`), each as it would be written by
itself. What cannot be written is a function item or a child whose node has no type; the fault is
that of the first of them in the order in which writing comes to them, which is the preorder of the
tree below a slot (`visits`).

Both are about types that do not contain themselves along the children that are written.
-/

namespace TypeStore

/-! ## Shapes -/

namespace Shape

/-- The children that are written, from left to right. -/
def written : Shape → List TypeVar
  | tuple fields => fields
  | closure parameters result _ _ => [parameters, result]
  | array element _ => [element]
  | slice element => [element]
  | reference base _ => [base]
  | rawPointer base _ => [base]
  | projection base _ _ _ => [base]
  | functionPointer params result => params ++ [result]
  | _ => []

end Shape

namespace Piece

/-- The variable of a piece that is a child. -/
def child? : Piece → Option TypeVar
  | text _ => none
  | child v => some v

/-- The text of a piece, given the texts of variables. -/
def fill (written : TypeVar → String) : Piece → String
  | text s => s
  | child v => written v

/-- The texts of pieces, one after the other. -/
def spell (written : TypeVar → String) (pieces : List Piece) : String :=
  String.join (pieces.map (fill written))

theorem filterMap_child?_commas (vars : List TypeVar) : (commas vars).filterMap child? = vars := by
  unfold commas
  induction vars with
  | nil => rfl
  | cons v rest ih =>
    cases rest with
    | nil => rfl
    | cons w rest => simpa [List.filterMap_cons, child?] using ih

theorem join_fill_commas (written : TypeVar → String) (vars : List TypeVar) :
    String.join ((commas vars).map (fill written)) = ", ".intercalate (vars.map written) := by
  unfold commas
  induction vars with
  | nil => rfl
  | cons v rest ih =>
    cases rest with
    | nil => simp [fill]
    | cons w rest => simpa [fill, String.append_assoc] using ih

end Piece

namespace Slot

/-- The text of a slot, given the texts of its children; function items have none. -/
def textBy? (written : TypeVar → String) (s : Slot) : Option String :=
  match s.shape with
  | .bool => some "bool"
  | .char => some "char"
  | .str => some "str"
  | .never => some "!"
  | .error => some "error"
  | .dynamic => some ("dyn " ++ " + ".intercalate (s.bounds.toList.map fun b => b.path.text))
  | .scalar k => some k.name
  | .tuple fields => some ("(" ++ ", ".intercalate (fields.map written) ++ ")")
  | .function .. => none
  | .closure parameters result _ _ =>
    some ("|" ++ written parameters ++ "| \x7b" ++ written result ++ "\x7d")
  | .adt a => some a.text
  | .array element _ => some ("[" ++ written element ++ ":CAPACITY]")
  | .slice element => some ("[" ++ written element ++ "]")
  | .reference base .readOnly => some ("&" ++ written base)
  | .reference base .writable => some ("&mut " ++ written base)
  | .rawPointer base .readOnly => some ("*const " ++ written base)
  | .rawPointer base .writable => some ("*mut " ++ written base)
  | .parameter name _ => some name
  | .placeholder name => some ("<placeholder:" ++ name ++ ">")
  | .projection base _ _ _ => some (written base)
  | .functionPointer params result =>
    some ("fn(" ++ ", ".intercalate (params.map written) ++ ") -> " ++ written result)
  | .infer state _ => some state.category.text

theorem textBy?_eq (written : TypeVar → String) (s : Slot) :
    s.textBy? written = s.layout?.map (Piece.spell written) := by
  obtain ⟨node, binding, declaration, bounds, absorbed, shape⟩ := s
  cases shape with
  | reference base m =>
    cases m <;> simp [textBy?, layout?, Piece.spell, Piece.fill, Mutability.referenceMark]
  | rawPointer base m =>
    cases m <;> simp [textBy?, layout?, Piece.spell, Piece.fill, Mutability.pointerMark]
  | tuple fields =>
    simp [textBy?, layout?, Piece.spell, Piece.join_fill_commas, Piece.fill, String.append_assoc]
  | functionPointer params result =>
    simp [textBy?, layout?, Piece.spell, Piece.join_fill_commas, Piece.fill, String.append_assoc]
  | _ => simp [textBy?, layout?, Piece.spell, Piece.fill, String.append_assoc]

/-- The layout of a slot has the written children in their order. -/
theorem written_eq_of_layout? {s : Slot} {pieces : List Piece} (h : s.layout? = some pieces) :
    pieces.filterMap Piece.child? = s.shape.written := by
  obtain ⟨node, binding, declaration, bounds, absorbed, shape⟩ := s
  cases shape with
  | function => cases h
  | _ =>
    cases h
    simp [Shape.written, List.filterMap_cons, Piece.child?, Piece.filterMap_child?_commas]

theorem layout?_eq_none_iff {s : Slot} : s.layout? = none ↔ s.kind = .function := by
  obtain ⟨node, binding, declaration, bounds, absorbed, shape⟩ := s
  cases shape with
  | scalar k => cases k <;> simp [layout?, kind, Shape.kind, Scalar.kind]
  | _ => simp [layout?, kind, Shape.kind]

end Slot

namespace Writing

@[simp]
theorem not_endless_ok (b : String) : ¬ Endless (.ok () b) := by
  rintro ⟨i, b', h⟩
  cases h

@[simp]
theorem endless_error_iff {f : Fault} {b : String} :
    Endless (.error f b) ↔ ∃ i, f = .endlessText i := by
  constructor
  · rintro ⟨i, b', h⟩
    cases h
    exact ⟨i, rfl⟩
  · rintro ⟨i, rfl⟩
    exact ⟨i, b, rfl⟩

/-- Writing ends in the refusal if there is one, and succeeds if there is none. -/
def Stops (refusal? : Option StoreError) (r : EStateM.Result Fault String Unit) : Prop :=
  match refusal? with
  | none => ∃ b, r = .ok () b
  | some e => ∃ b, r = .error (.error e) b

section Stops

variable {refusal? : Option StoreError} {r : EStateM.Result Fault String Unit}

theorem Stops.ok_iff (h : Stops refusal? r) : (∃ b, r = .ok () b) ↔ refusal? = none := by
  cases refusal? with
  | none => exact ⟨fun _ => rfl, fun _ => h⟩
  | some e =>
    obtain ⟨b, rfl⟩ := h
    simp

theorem Stops.refused {f : Fault} {b : String} (h : Stops refusal? r) (hr : r = .error f b) :
    ∃ e, refusal? = some e ∧ f = .error e := by
  cases refusal? with
  | none =>
    obtain ⟨b', rfl⟩ := h
    cases hr
  | some e =>
    obtain ⟨b', rfl⟩ := h
    cases hr
    exact ⟨e, rfl, rfl⟩

end Stops

end Writing

namespace Context

open Writing (Stops)

variable {c : Context} {i j : SlotId} {s : Slot}

/-! ## The tree below a slot -/

/-- The slots that are written right below a slot. -/
def writtenAt (c : Context) (i : SlotId) : List SlotId :=
  match c.slot? i with
  | some s => s.shape.written.filterMap fun v => c.typeOf? v.node
  | none => []

/-- One step down. -/
def Writes (c : Context) (i j : SlotId) : Prop := j ∈ c.writtenAt i

instance (c : Context) (i j : SlotId) : Decidable (c.Writes i j) :=
  inferInstanceAs (Decidable (j ∈ c.writtenAt i))

/-- Any number of steps down. -/
def Unfolds (c : Context) : SlotId → SlotId → Prop := Relation.ReflTransGen c.Writes

/-- No slot below a slot contains itself. -/
def CircleFree (c : Context) (i : SlotId) : Prop :=
  ∀ j, c.Unfolds i j → ¬ Relation.TransGen c.Writes j j

/-- No way down from a slot goes on for ever. -/
def FiniteBelow (c : Context) (i : SlotId) : Prop := Acc (fun j k => c.Writes k j) i

theorem writes_iff (hs : c.slot? i = some s) :
    c.Writes i j ↔ ∃ v ∈ s.shape.written, c.typeOf? v.node = some j := by
  simp [Writes, writtenAt, hs]

theorem Writes.has (h : c.Writes i j) : c.Has i := by
  by_contra hmissing
  have hslot : c.slot? i = none := Array.getElem?_eq_none (Nat.not_lt.mp hmissing)
  simp [Writes, writtenAt, hslot] at h

/-- The slots of the arena that are below a slot. -/
abbrev SlotsBelow (c : Context) (i : SlotId) : Type := { j : SlotId // c.Has j ∧ c.Unfolds i j }

instance finite_slotsBelow (c : Context) (i : SlotId) : Finite (c.SlotsBelow i) := by
  apply Finite.of_injective fun j : c.SlotsBelow i => (⟨j.1.index, j.2.1⟩ : Fin c.size)
  intro j k hjk
  exact Subtype.ext (SlotId.ext (Fin.mk.inj hjk))

/-- An arena has no room for a way that neither ends nor comes back. -/
theorem CircleFree.wellFounded (h : c.CircleFree i) :
    WellFounded fun j k : c.SlotsBelow i => Relation.TransGen c.Writes k.1 j.1 := by
  have : IsTrans (c.SlotsBelow i) fun j k => Relation.TransGen c.Writes k.1 j.1 :=
    ⟨fun _ _ _ hjk hkl => hkl.trans hjk⟩
  have : Std.Irrefl fun j k : c.SlotsBelow i => Relation.TransGen c.Writes k.1 j.1 :=
    ⟨fun j => h j.1 j.2.2⟩
  exact Finite.wellFounded_of_trans_of_irrefl _

theorem CircleFree.finiteBelow (h : c.CircleFree i) : c.FiniteBelow i := by
  have hmissing : ∀ j, ¬ c.Has j → c.FiniteBelow j := by
    intro j hj
    exact ⟨j, fun k hk => absurd hk.has hj⟩
  have hbelow : ∀ j : c.SlotsBelow i, c.FiniteBelow j.1 := by
    intro j
    induction j using h.wellFounded.induction with
    | _ j ih =>
      refine ⟨j.1, fun k hk => ?_⟩
      by_cases hhas : c.Has k
      · exact ih ⟨k, hhas, j.2.2.tail hk⟩ (.single hk)
      · exact hmissing k hhas
  by_cases hi : c.Has i
  · exact hbelow ⟨i, hi, .refl⟩
  · exact hmissing i hi

/-! ## Writing without a bound -/

section Pieces

variable {write : SlotId → Writing Unit} {pieces : List Piece}

theorem not_endless_writePieces
    (h : ∀ v ∈ pieces.filterMap Piece.child?, ∀ j, c.typeOf? v.node = some j →
      ∀ b, ¬ Writing.Endless (write j b)) (b : String) :
    ¬ Writing.Endless (c.writePieces write pieces b) := by
  induction pieces generalizing b with
  | nil => exact Writing.not_endless_ok b
  | cons piece rest ih =>
    cases piece with
    | text s => exact ih h (b ++ s)
    | child v =>
      have hrest := ih fun w hw => h w (by simp [Piece.child?, hw])
      cases hv : c.typeOf? v.node with
      | none =>
        simp [writePieces_child_of_error (typeOf_of_none hv)]
      | some j =>
        have hj := h v (by simp [Piece.child?]) j hv b
        rw [writePieces_child_of_ok (typeOf_eq_ok_iff.mpr hv)]
        cases hrun : write j b with
        | ok a b' => exact hrest b'
        | error f b' =>
          rw [hrun] at hj
          exact hj

end Pieces

theorem layoutOf_of_layout? {pieces : List Piece} (hs : c.slot? i = some s)
    (hlayout : s.layout? = some pieces) : c.layoutOf i = .ok pieces := by
  rw [layoutOf_of_slot? hs, Slot.layout, hlayout]

theorem layoutOf_of_function (hs : c.slot? i = some s) (hlayout : s.layout? = none) :
    c.layoutOf i = .error (.error (.unimplemented s.node "function type rendering")) := by
  rw [layoutOf_of_slot? hs, Slot.layout, hlayout]

/-- A finite tree is written within some depth, whatever is found in it. -/
theorem FiniteBelow.ends (h : c.FiniteBelow i) : c.Ends i := by
  induction h with
  | intro i _ ih =>
    cases hs : c.slot? i with
    | none =>
      exact ⟨1, by simp [writeSlot_succ_of_missing (Array.getElem?_eq_none_iff.mp hs)]⟩
    | some s =>
      cases hlayout : s.layout? with
      | none =>
        exact ⟨1, by simp [writeSlot_succ_of_error (layoutOf_of_function hs hlayout)]⟩
      | some pieces =>
        refine ⟨c.size + 2, ?_⟩
        rw [writeSlot_succ_of_ok (layoutOf_of_layout? hs hlayout)]
        apply not_endless_writePieces
        rw [Slot.written_eq_of_layout? hlayout]
        intro v hv j hj b
        rw [endless_writeSlot_iff]
        exact writeSlot_of_ends (ih j ((writes_iff hs).mpr ⟨v, hv, hj⟩))

/-- So writing needs no bound there: it writes the pieces of the layout. -/
theorem write_eq_writePieces {pieces : List Piece} (h : c.FiniteBelow i)
    (hs : c.slot? i = some s) (hlayout : s.layout? = some pieces) (b : String) :
    c.write i b = c.writePieces c.write pieces b := by
  have hend : ¬ Writing.Endless (c.writeSlot (c.size + 1) i b) := by
    rw [endless_writeSlot_iff]
    exact writeSlot_of_ends h.ends
  have hmore : c.writeSlot (c.size + 2) i b = c.write i b := writeSlot_mono (by omega) hend
  rw [← hmore, writeSlot_succ_of_ok (layoutOf_of_layout? hs hlayout)]
  rfl

theorem write_of_function (hs : c.slot? i = some s) (hkind : s.kind = .function) (b : String) :
    c.write i b = .error (.error (.unimplemented s.node "function type rendering")) b :=
  writeSlot_succ_of_error (layoutOf_of_function hs (Slot.layout?_eq_none_iff.mpr hkind)) b

/-- What stands in the buffer before plays no part. -/
theorem write_behind (c : Context) (i : SlotId) (b : String) :
    c.write i b = Writing.behind b (c.write i "") := by
  have h := writeSlot_behind c (c.size + 1) i b ""
  rwa [String.append_empty] at h

theorem write_empty_of_error {b b' : String} {f : Fault} (h : c.write i b = .error f b') :
    ∃ t, c.write i "" = .error f t ∧ b' = b ++ t := by
  rw [write_behind] at h
  cases hempty : c.write i "" with
  | ok a t =>
    rw [hempty] at h
    cases h
  | error f' t =>
    rw [hempty] at h
    cases h
    exact ⟨t, rfl, rfl⟩

/-! ## Where writing stops -/

/-- What writing comes to: a slot, or a node that has no type. -/
inductive Visit where
  | slot (s : Slot)
  | untyped (n : NodeId)

/-- Why writing does not get past a visit. -/
def Visit.refusal? : Visit → Option StoreError
  | slot s =>
    if s.kind = .function then some (.unimplemented s.node "function type rendering") else none
  | untyped n => some (.unknownType n)

/-- The tree below a slot in preorder, from left to right. -/
def visits (c : Context) (i : SlotId) (h : c.FiniteBelow i) : List Visit :=
  match c.slot? i with
  | none => []
  | some s => .slot s :: s.shape.written.flatMap fun v =>
    match c.typeOf? v.node with
    | none => [.untyped v.node]
    | some j => if hij : c.Writes i j then c.visits j (h.inv hij) else []
termination_by (⟨i, h⟩ : { k // Acc (fun j k => c.Writes k j) k })
decreasing_by exact hij

theorem findSome?_flatMap {α β γ : Type} (f : α → List β) (p : β → Option γ) (l : List α) :
    (l.flatMap f).findSome? p = l.findSome? fun a => (f a).findSome? p := by
  induction l with
  | nil => rfl
  | cons a l ih =>
    rw [List.flatMap_cons, List.findSome?_append, List.findSome?_cons, ih]
    cases (f a).findSome? p <;> rfl

/-- If every child is written up to its refusal, pieces are written up to the first one. -/
theorem stops_writePieces {write : SlotId → Writing Unit} {pieces : List Piece}
    {refusal? : TypeVar → Option StoreError}
    (huntyped : ∀ v ∈ pieces.filterMap Piece.child?, c.typeOf? v.node = none →
      refusal? v = some (.unknownType v.node))
    (htyped : ∀ v ∈ pieces.filterMap Piece.child?, ∀ j, c.typeOf? v.node = some j →
      ∀ b, Stops (refusal? v) (write j b)) (b : String) :
    Stops ((pieces.filterMap Piece.child?).findSome? refusal?) (c.writePieces write pieces b) := by
  induction pieces generalizing b with
  | nil => exact ⟨b, rfl⟩
  | cons piece rest ih =>
    cases piece with
    | text s => exact ih huntyped htyped (b ++ s)
    | child v =>
      have hrest := ih (fun w hw => huntyped w (by simp [Piece.child?, hw]))
        fun w hw => htyped w (by simp [Piece.child?, hw])
      have hmem : v ∈ (Piece.child v :: rest).filterMap Piece.child? := by simp [Piece.child?]
      have hfirst : (Piece.child v :: rest).filterMap Piece.child?
          = v :: rest.filterMap Piece.child? := by simp [Piece.child?]
      rw [hfirst, List.findSome?_cons]
      cases hv : c.typeOf? v.node with
      | none =>
        rw [huntyped v hmem hv, writePieces_child_of_error (typeOf_of_none hv)]
        exact ⟨b, rfl⟩
      | some j =>
        have hj := htyped v hmem j hv b
        rw [writePieces_child_of_ok (typeOf_eq_ok_iff.mpr hv)]
        cases hrefusal : refusal? v with
        | none =>
          rw [hrefusal] at hj
          obtain ⟨b', hwrite⟩ := hj
          rw [hwrite]
          exact hrest b'
        | some e =>
          rw [hrefusal] at hj
          obtain ⟨b', hwrite⟩ := hj
          rw [hwrite]
          exact ⟨b', rfl⟩

/-- Writing a slot stops at the first visit that it does not get past. -/
theorem stops_write (htypes : c.TypesExist) (h : c.FiniteBelow i) (hi : c.Has i) (b : String) :
    Stops ((c.visits i h).findSome? Visit.refusal?) (c.write i b) := by
  induction h generalizing b with
  | intro i hbelow ih =>
    have hfinite : c.FiniteBelow i := ⟨i, hbelow⟩
    obtain ⟨s, hs⟩ := exists_slot?_of_index_lt hi
    show Stops ((c.visits i hfinite).findSome? Visit.refusal?) (c.write i b)
    rw [visits, hs]
    dsimp only
    rw [List.findSome?_cons]
    by_cases hkind : s.kind = .function
    · rw [write_of_function hs hkind, Visit.refusal?, if_pos hkind]
      exact ⟨b, rfl⟩
    · obtain ⟨pieces, hlayout⟩ : ∃ pieces, s.layout? = some pieces :=
        Option.ne_none_iff_exists'.mp (mt Slot.layout?_eq_none_iff.mp hkind)
      rw [Visit.refusal?, if_neg hkind, write_eq_writePieces hfinite hs hlayout,
        findSome?_flatMap, ← Slot.written_eq_of_layout? hlayout]
      apply stops_writePieces
      · intro v _ hv
        simp [hv, Visit.refusal?]
      · intro v hv j hj b
        rw [Slot.written_eq_of_layout? hlayout] at hv
        have hij : c.Writes i j := (writes_iff hs).mpr ⟨v, hv, hj⟩
        simp only [hj, dif_pos hij]
        exact ih j hij (htypes _ _ hj) b

/-- The visits are the slots below a slot and their children without a type. -/
theorem forall_visits_iff {P : Visit → Prop} (h : c.FiniteBelow i) :
    (∀ x ∈ c.visits i h, P x) ↔ ∀ j t, c.Unfolds i j → c.slot? j = some t →
      P (.slot t) ∧ ∀ v ∈ t.shape.written, c.typeOf? v.node = none → P (.untyped v.node) := by
  induction h with
  | intro i hbelow ih =>
    have hfinite : c.FiniteBelow i := ⟨i, hbelow⟩
    show (∀ x ∈ c.visits i hfinite, P x) ↔ _
    rw [visits]
    cases hs : c.slot? i with
    | none =>
      simp only [List.not_mem_nil, false_implies, implies_true, true_iff]
      intro j t hj ht
      rcases Relation.ReflTransGen.cases_head hj with rfl | ⟨k, hk, -⟩
      · rw [hs] at ht
        cases ht
      · simp [Writes, writtenAt, hs] at hk
    | some s =>
      dsimp only
      constructor
      · intro hall j t hj ht
        rcases Relation.ReflTransGen.cases_head hj with rfl | ⟨k, hk, hkj⟩
        · rw [hs] at ht
          cases ht
          refine ⟨hall _ List.mem_cons_self, fun v hv hnone => hall _ ?_⟩
          exact List.mem_cons_of_mem _ (List.mem_flatMap.mpr ⟨v, hv, by simp [hnone]⟩)
        · refine (ih k hk).mp (fun x hx => hall x ?_) j t hkj ht
          obtain ⟨v, hv, hvk⟩ := (writes_iff hs).mp hk
          refine List.mem_cons_of_mem _ (List.mem_flatMap.mpr ⟨v, hv, ?_⟩)
          simpa only [hvk, dif_pos hk] using hx
      · intro hbelow x hx
        rcases List.mem_cons.mp hx with rfl | hx
        · exact (hbelow i s .refl hs).1
        · obtain ⟨v, hv, hx⟩ := List.mem_flatMap.mp hx
          cases hvk : c.typeOf? v.node with
          | none =>
            simp only [hvk, List.mem_singleton] at hx
            rw [hx]
            exact (hbelow i s .refl hs).2 v hv hvk
          | some k =>
            have hk : c.Writes i k := (writes_iff hs).mpr ⟨v, hv, hvk⟩
            simp only [hvk, dif_pos hk] at hx
            exact (ih k hk).mpr (fun j t hj => hbelow j t (.head hk hj)) x hx

/-- Below a slot there is no function item and no child without a type. -/
def Unhindered (c : Context) (i : SlotId) : Prop :=
  ∀ j t, c.Unfolds i j → c.slot? j = some t →
    t.kind ≠ .function ∧ ∀ v ∈ t.shape.written, c.typeOf? v.node ≠ none

theorem unhindered_iff (h : c.FiniteBelow i) :
    (c.visits i h).findSome? Visit.refusal? = none ↔ c.Unhindered i := by
  rw [List.findSome?_eq_none_iff, forall_visits_iff]
  simp [Unhindered, Visit.refusal?]

theorem Unhindered.down (h : c.Unhindered i) (hij : c.Writes i j) : c.Unhindered j := by
  intro k t hk
  exact h k t (.head hij hk)

/-! ## What is written -/

theorem write_of_render {t : String} (h : c.render i = .ok t) (b : String) :
    c.write i b = .ok () (b ++ t) := by
  rw [write_behind, GrowsTo.render_eq_ok.mp h]
  rfl

/-- Pieces whose children have texts are written as those texts in place. -/
theorem writePieces_eq_spell {pieces : List Piece} {text : TypeVar → String}
    (h : ∀ v ∈ pieces.filterMap Piece.child?, ∃ j, c.typeOf? v.node = some j ∧
      c.render j = .ok (text v)) (b : String) :
    c.writePieces c.write pieces b = .ok () (b ++ Piece.spell text pieces) := by
  induction pieces generalizing b with
  | nil => exact congrArg _ (String.append_empty).symm
  | cons piece rest ih =>
    have hspell : Piece.spell text (piece :: rest)
        = piece.fill text ++ Piece.spell text rest := by simp [Piece.spell]
    rw [hspell, ← String.append_assoc]
    cases piece with
    | text s => exact ih h (b ++ s)
    | child v =>
      obtain ⟨j, hj, htext⟩ := h v (by simp [Piece.child?])
      rw [writePieces_child_of_ok (typeOf_eq_ok_iff.mpr hj), write_of_render htext]
      exact ih (fun w hw => h w (by simp [Piece.child?, hw])) _

/-- The children of a slot that can be written have texts of their own. -/
theorem Unhindered.exists_texts (htypes : c.TypesExist) (hfinite : c.FiniteBelow i)
    (h : c.Unhindered i) (hs : c.slot? i = some s) :
    ∃ text : TypeVar → String, ∀ v ∈ s.shape.written, ∃ j, c.typeOf? v.node = some j ∧
      c.render j = .ok (text v) := by
  have heach : ∀ v ∈ s.shape.written, ∃ t j, c.typeOf? v.node = some j ∧ c.render j = .ok t := by
    intro v hv
    obtain ⟨j, hj⟩ := Option.ne_none_iff_exists'.mp ((h i s .refl hs).2 v hv)
    have hij : c.Writes i j := (writes_iff hs).mpr ⟨v, hv, hj⟩
    have hbelow : c.FiniteBelow j := hfinite.inv hij
    have hstops := stops_write htypes hbelow (htypes _ _ hj) ""
    obtain ⟨t, ht⟩ := hstops.ok_iff.mpr ((unhindered_iff hbelow).mpr (h.down hij))
    exact ⟨t, j, hj, GrowsTo.render_eq_ok.mpr ht⟩
  choose! text htext using heach
  exact ⟨text, htext⟩

/-- A slot whose children have texts is written as its own text around them. -/
theorem write_eq_textBy? {text : TypeVar → String} {t : String} (h : c.FiniteBelow i)
    (hs : c.slot? i = some s)
    (htext : ∀ v ∈ s.shape.written, ∃ j, c.typeOf? v.node = some j ∧ c.render j = .ok (text v))
    (ht : s.textBy? text = some t) (b : String) : c.write i b = .ok () (b ++ t) := by
  rw [Slot.textBy?_eq, Option.map_eq_some_iff] at ht
  obtain ⟨pieces, hlayout, rfl⟩ := ht
  rw [← Slot.written_eq_of_layout? hlayout] at htext
  rw [write_eq_writePieces h hs hlayout, writePieces_eq_spell htext]

theorem exists_textBy? (hkind : s.kind ≠ .function) (text : TypeVar → String) :
    ∃ t, s.textBy? text = some t := by
  rw [← Option.isSome_iff_exists, Slot.textBy?_eq, Option.isSome_map, Option.isSome_iff_ne_none]
  exact mt Slot.layout?_eq_none_iff.mp hkind

/-- Writing a type that does not contain itself succeeds exactly if there is no function item and
no child without a type below it. It appends the text of its kind with the texts of its children in
place; or it fails at the first obstacle in preorder, whatever the buffer holds, and what it held
stays. -/
theorem write_composes (htypes : c.TypesExist) (hs : c.slot? i = some s) (h : c.CircleFree i)
    (b : String) :
    ((∃ b', c.write i b = .ok () b') ↔ c.Unhindered i) ∧
    (∀ b', c.write i b = .ok () b' → ∃ text t,
      (∀ v ∈ s.shape.written, ∃ j, c.typeOf? v.node = some j ∧ c.render j = .ok (text v)) ∧
      s.textBy? text = some t ∧ b' = b ++ t) ∧
    ∀ f b', c.write i b = .error f b' → ∃ e t,
      (c.visits i h.finiteBelow).findSome? Visit.refusal? = some e ∧ f = .error e ∧
      c.write i "" = .error f t ∧ b' = b ++ t := by
  have hfinite := h.finiteBelow
  have hstops := stops_write htypes hfinite (index_lt_of_slot? hs) b
  have hok : (∃ b', c.write i b = .ok () b') ↔ c.Unhindered i :=
    hstops.ok_iff.trans (unhindered_iff hfinite)
  refine ⟨hok, ?_, ?_⟩
  · intro b' hwrite
    have hfree := hok.mp ⟨b', hwrite⟩
    obtain ⟨text, htext⟩ := hfree.exists_texts htypes hfinite hs
    obtain ⟨t, ht⟩ := exists_textBy? (hfree i s .refl hs).1 text
    rw [write_eq_textBy? hfinite hs htext ht] at hwrite
    cases hwrite
    exact ⟨text, t, htext, ht, rfl⟩
  · intro f b' hwrite
    obtain ⟨e, hrefusal, he⟩ := hstops.refused hwrite
    obtain ⟨t, hempty, hbuffer⟩ := write_empty_of_error hwrite
    exact ⟨e, t, hrefusal, he, hempty, hbuffer⟩

/-! ## A tuple with a function item in it -/

/-- Steps that go to earlier slots only make no circle. -/
theorem CircleFree.of_earlier (h : ∀ k < c.size, ∀ j ∈ c.writtenAt ⟨k⟩, j.index < k)
    (i : SlotId) : c.CircleFree i := by
  have hstep : ∀ k j, c.Writes k j → k.index > j.index := by
    intro k j hkj
    exact h k.index hkj.has j hkj
  intro k _ hcircle
  have hearlier : Relation.TransGen (· > ·) k.index k.index := hcircle.lift SlotId.index hstep
  rw [Relation.transGen_eq_self] at hearlier
  exact Nat.lt_irrefl _ hearlier

/-- Makes a slice, a function item, a tuple of both with a child that has no type, and a function
pointer. -/
def makeSignatures : List Command :=
  [.mint, .mint, .mint, .mint, .register (.new ⟨45⟩ (.slice ⟨⟨21⟩⟩)),
    .register (.new ⟨46⟩ (.function "main" [] ⟨⟨21⟩⟩ .none)),
    .register (.new ⟨47⟩ (.tuple [⟨⟨45⟩⟩, ⟨⟨46⟩⟩, ⟨⟨8⟩⟩])),
    .register (.new ⟨48⟩ (.functionPointer [⟨⟨45⟩⟩, ⟨⟨31⟩⟩] ⟨⟨45⟩⟩))]

def signatures : Context := (new .standard).run makeSignatures

theorem reached_signatures : signatures.Reached := by
  refine ⟨.standard, makeSignatures, ?_,
    ⟨trivial, ?_, trivial, ?_, trivial, ?_, trivial, ?_, show Slot.Below _ _ from ?_, ?_,
      show Slot.Below _ _ from ?_, ?_, show Slot.Below _ _ from ?_, ?_,
      show Slot.Below _ _ from ?_, ?_, trivial⟩, rfl⟩
  all_goals decide +kernel

/-- The function pointer is written as a whole. The tuple is written up to the function item, and
that the child after it has no type does not come up. -/
theorem signatures_written :
    signatures.write ⟨22⟩ "f: " = .ok () "f: fn([i32], bool) -> [i32]" ∧
      signatures.Unhindered ⟨22⟩ ∧ signatures.typeOf? ⟨8⟩ = none ∧ ¬ signatures.Unhindered ⟨21⟩ ∧
      ∃ h t, signatures.write ⟨21⟩ "t: "
          = .error (.error (.unimplemented ⟨46⟩ "function type rendering")) ("t: " ++ t) ∧
        (signatures.visits ⟨21⟩ h).findSome? Visit.refusal?
          = some (.unimplemented ⟨46⟩ "function type rendering") := by
  have hcircle : ∀ i, signatures.CircleFree i := by
    apply CircleFree.of_earlier
    decide +kernel
  have htypes := (Reached.wellFormed reached_signatures).typesExist
  have hwrite : signatures.write ⟨22⟩ "f: " = .ok () "f: fn([i32], bool) -> [i32]" := rfl
  have hfail : signatures.write ⟨21⟩ "t: "
      = .error (.error (.unimplemented ⟨46⟩ "function type rendering")) "t: ([i32], " := rfl
  obtain ⟨pointer, hpointer⟩ := exists_slot?_of_index_lt
    (show signatures.Has ⟨22⟩ by decide +kernel)
  obtain ⟨tuple, htuple⟩ := exists_slot?_of_index_lt
    (show signatures.Has ⟨21⟩ by decide +kernel)
  obtain ⟨hpointerOk, -, -⟩ := write_composes htypes hpointer (hcircle _) "f: "
  obtain ⟨htupleOk, -, htupleFault⟩ := write_composes htypes htuple (hcircle _) "t: "
  obtain ⟨e, t, hfirst, he, -, hbuffer⟩ := htupleFault _ _ hfail
  cases he
  refine ⟨hwrite, hpointerOk.mp ⟨_, hwrite⟩, by decide +kernel, ?_,
    (hcircle _).finiteBelow, t, by rw [hfail, hbuffer], hfirst⟩
  intro hfree
  obtain ⟨b, hb⟩ := htupleOk.mpr hfree
  rw [hfail] at hb
  cases hb

end Context

end TypeStore
