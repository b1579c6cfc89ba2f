import TypeStore.Proofs.Growth
import TypeStore.Proofs.Resolution

/-!
# No slot is missing

Slots are found by ids, and an id for which there is no slot would end an operation on the spot.
Ids are kept in two places, the table of types and the list of builtin types. As long as these name
slots of the arena only, no question that starts from such a slot comes to a missing one: every
child on the way is looked up in the table, and a node without a type is reported as that. Copies
are no exception, although they look up what they noted themselves.
-/

namespace TypeStore

theorem RunYields.ask {α : Type} {P : Fault → Prop} {Q : α → Prop} {x : Except Fault α}
    (h : Yields P Q x) (b : String) : RunYields P (fun a _ => Q a) (Writing.ask x b) := by
  cases x with
  | ok a => exact h
  | error f => exact h

/-- What a buffer holds in the end. -/
def Writing.text : EStateM.Result Fault String Unit → Except Fault String
  | .ok _ s => .ok s
  | .error f _ => .error f

theorem RunYields.text {P : Fault → Prop} {r : EStateM.Result Fault String Unit}
    (h : RunYields P (fun _ _ => True) r) : Yields P (fun _ => True) (Writing.text r) := by
  cases r with
  | ok a s => trivial
  | error f s => exact h

namespace Context

variable {c : Context}

/-- The table of types and the list of builtin types name slots of the arena only. -/
structure InRange (c : Context) : Prop where
  types : c.TypesExist
  builtins : ∀ i ∈ c.builtins.slots, c.Has i

/-- A fault that is not the store's own: no slot is missing, and a node that is said to have no
type has none. -/
structure Grounded (c : Context) (f : Fault) : Prop where
  present : ∀ i, f ≠ .missingSlot i
  untyped : ∀ n, f = .error (.unknownType n) → c.typeOf? n = none

theorem Untyped.grounded {f : Fault} (h : c.Untyped f) : c.Grounded f := by
  obtain ⟨n, rfl, hn⟩ := h
  refine ⟨by simp, ?_⟩
  rintro m ⟨⟩
  exact hn

/-- A refusal on other grounds. -/
theorem grounded_of_ne {e : StoreError} (h : ∀ n, e ≠ .unknownType n) :
    c.Grounded (.error e) where
  present := by simp
  untyped n hn := absurd (Fault.error.inj hn) (h n)

theorem Refusal.grounded {f : Fault} (h : Refusal f) : c.Grounded f := by
  obtain ⟨e, rfl, he⟩ := h
  exact grounded_of_ne he

/-! ## Questions -/

section Questions

variable {i : SlotId} (h : c.TypesExist) (hi : c.Has i)

include h in
theorem grounded_typeOf (n : NodeId) : Yields c.Grounded c.Has (c.typeOf n) :=
  (yields_typeOf h n).imp (fun _ hf => hf.grounded) fun _ hj => hj

include hi in
theorem grounded_limitFault : c.Grounded (c.limitFault i) := by
  obtain ⟨s, hs⟩ := exists_slot?_of_index_lt hi
  rw [limitFault_of_slot? hs]
  exact grounded_of_ne (by simp)

include hi in
theorem grounded_placeholder : Yields c.Grounded (fun _ => True) (c.placeholder i) := by
  refine (yields_slot hi).bind fun s _ => ?_
  split
  · trivial
  · exact grounded_of_ne (by simp)

include h in
theorem grounded_allConcrete {check : SlotId → Except Fault Bool}
    (hcheck : ∀ j, c.Has j → Yields c.Grounded (fun _ => True) (check j)) (vars : List TypeVar) :
    Yields c.Grounded (fun _ => True) (c.allConcrete check vars) := by
  induction vars with
  | nil => trivial
  | cons v rest ih =>
    rw [allConcrete_cons_eq]
    refine (grounded_typeOf h v.node).bind fun j hj => (hcheck j hj).bind fun b _ => ?_
    split
    · exact ih
    · trivial

include h in
theorem grounded_writePieces {write : SlotId → Writing Unit}
    (hwrite : ∀ j, c.Has j → ∀ b, RunYields c.Grounded (fun _ _ => True) (write j b))
    (pieces : List Piece) (b : String) :
    RunYields c.Grounded (fun _ _ => True) (c.writePieces write pieces b) := by
  induction pieces generalizing b with
  | nil => trivial
  | cons piece rest ih =>
    cases piece with
    | text s => exact ih (b ++ s)
    | child v =>
      unfold writePieces
      refine RunYields.bind (RunYields.ask (grounded_typeOf h v.node) b) fun j b' hj => ?_
      exact RunYields.bind (hwrite j hj b') fun _ b'' _ => ih b''

include h hi

theorem grounded_terminal : Yields c.Grounded c.Has (c.terminal i) := by
  have hwalk := (yields_walk h c.config.recursionLimit c.config.recursionLimit hi).imp
    (fun _ hf => hf.grounded) fun _ hr => hr
  refine hwalk.bind fun r hr => ?_
  cases r with
  | some j => exact hr j rfl
  | none => exact grounded_limitFault hi

theorem grounded_parameterTarget : Yields c.Grounded c.Has (c.parameterTarget i) := by
  have hfollow : Yields c.Grounded (fun r => ∀ p ∈ r, c.Has p.1)
      (c.followParameter c.config.recursionLimit i) := by
    obtain ⟨s, hs⟩ := exists_slot?_of_index_lt hi
    by_cases hparameter : s.isParameter = true
    · exact (yields_followParameter h _ hs hparameter).imp (fun _ hf => hf.grounded) fun _ hr => hr
    · unfold followParameter
      rw [slot_eq_ok_iff.mpr hs]
      show Yields _ _ (if s.isParameter then _ else _)
      rw [if_neg hparameter]
      exact grounded_of_ne (by simp)
  refine hfollow.bind fun r hr => ?_
  cases r with
  | some p => exact hr p rfl
  | none => exact grounded_limitFault hi

theorem grounded_placeholderTarget : Yields c.Grounded c.Has (c.placeholderTarget i) := by
  refine (grounded_placeholder hi).bind fun s _ => ?_
  cases c.associatedNode? s with
  | some n => exact grounded_typeOf h n
  | none => exact grounded_of_ne (by simp)

theorem grounded_concreteWithin (fuel : Nat) (entered : List NodeId) :
    Yields c.Grounded (fun _ => True) (c.concreteWithin fuel entered i) := by
  induction fuel generalizing entered i with
  | zero => exact grounded_limitFault hi
  | succ fuel ih =>
    have hall : ∀ entered vars, Yields c.Grounded (fun _ => True)
        (c.allConcrete (c.concreteWithin fuel entered) vars) :=
      fun entered => grounded_allConcrete h fun _ hj => ih hj entered
    rw [concreteWithin_succ]
    refine (yields_slot hi).bind fun s _ => ?_
    split
    · trivial
    · exact hall entered _
    · split
      · trivial
      · exact hall _ _
    · refine (hall entered _).bind fun b _ => ?_
      split
      · trivial
      · exact hall entered _

theorem grounded_writeSlot (fuel : Nat) (b : String) :
    RunYields c.Grounded (fun _ _ => True) (c.writeSlot fuel i b) := by
  induction fuel generalizing i b with
  | zero => exact ⟨by simp, by simp⟩
  | succ fuel ih =>
    unfold writeSlot
    have hlayout : Yields c.Grounded (fun _ => True) (c.layoutOf i) := by
      refine (yields_slot hi).bind fun s _ => ?_
      unfold Slot.layout
      split
      · trivial
      · exact grounded_of_ne (by simp)
    refine RunYields.bind (RunYields.ask hlayout b) fun pieces b' _ => ?_
    exact grounded_writePieces h (fun j hj b => ih hj b) pieces b'

theorem grounded_render : Yields c.Grounded (fun _ => True) (c.render i) :=
  RunYields.text (grounded_writeSlot h hi (c.size + 1) "")

end Questions

/-- Types without a text are passed over, so only a text without end can stop the search. -/
theorem grounded_findByText (h : c.TypesExist) (text : String) {slots : List SlotId}
    (hslots : ∀ i ∈ slots, c.Has i) :
    Yields c.Grounded (fun r => ∀ i ∈ r, c.Has i) (c.findByText text slots) := by
  induction slots with
  | nil => exact fun _ hj => absurd hj (Option.not_mem_none _)
  | cons i rest ih =>
    have hi := hslots i List.mem_cons_self
    have hrest := ih fun j hj => hslots j (List.mem_cons_of_mem _ hj)
    have hrender := grounded_render h hi
    unfold findByText
    cases hrun : c.render i with
    | ok s =>
      dsimp only
      split
      · rintro j ⟨⟩
        exact hi
      · exact hrest
    | error f =>
      rw [hrun] at hrender
      cases f with
      | error e => exact hrest
      | missingSlot j => exact hrender
      | endlessText j => exact hrender

theorem InRange.findBuiltin (h : c.InRange) (text : String) :
    Yields c.Grounded (fun r => ∀ i ∈ r, c.Has i) (c.findBuiltin text) :=
  grounded_findByText h.types text h.builtins

theorem InRange.fallback (h : c.InRange) {i : SlotId} (hi : c.Has i) :
    Yields c.Grounded (fun r => ∀ j ∈ r, c.Has j) (c.fallback i) := by
  refine (yields_slot hi).bind fun s _ => ?_
  split
  · split
    · exact h.findBuiltin _
    · exact fun _ hj => absurd hj (Option.not_mem_none _)
  · exact grounded_of_ne (by simp)

/-! ## Changes -/

/-- A new slot is found under its id, even where ids have run out and several slots share one. -/
theorem has_nextSlot (c : Context) (s : Slot) : (c.allocate s).2.Has (nextSlot c.arena) := by
  show min c.arena.size 0xFFFFFFFF < (c.allocate s).2.size
  rw [size_allocate, size]
  omega

theorem size_le_allocate (c : Context) (s : Slot) : c.size ≤ (c.allocate s).2.size := by
  rw [size_allocate]
  exact Nat.le_succ _

namespace InRange

/-- Nothing is out of range in a store that has the tables of another and at least its slots. -/
theorem mono {c' : Context} (h : c.InRange) (hsize : c.size ≤ c'.size) (htypes : c'.types = c.types)
    (hbuiltins : c'.builtins.slots = c.builtins.slots) : c'.InRange where
  types n i hn := by
    rw [typeOf?, htypes] at hn
    exact Nat.lt_of_lt_of_le (h.types n i hn) hsize
  builtins i hi := by
    rw [hbuiltins] at hi
    exact Nat.lt_of_lt_of_le (h.builtins i hi) hsize

theorem sameTypes {c' : Context} (h : c.InRange) (hc : c.SameTypes c') :
    c'.InRange ∧ c.size ≤ c'.size := by
  have hsize : c.size ≤ c'.size := by
    unfold size
    rw [hc.arena]
  exact ⟨h.mono hsize hc.types hc.builtins, hsize⟩

theorem allocate (h : c.InRange) (s : Slot) : (c.allocate s).2.InRange :=
  h.mono (size_le_allocate c s) rfl rfl

theorem bindType (h : c.InRange) (n : NodeId) {i : SlotId} (hi : c.Has i) :
    (c.bindType n i).InRange where
  types k j hk := by
    rw [typeOf?_bindType] at hk
    split at hk
    · cases hk
      exact hi
    · exact h.types k j hk
  builtins := h.builtins

theorem register (h : c.InRange) (s : Slot) : (c.register s).2.InRange :=
  (h.allocate s).bindType s.node (has_nextSlot c s)

theorem addBuiltin (h : c.InRange) (n nameNode : NodeId) {i : SlotId} (hi : c.Has i) :
    (c.addBuiltin n nameNode i).InRange where
  types := (h.bindType n hi).types
  builtins j hj := by
    rcases List.mem_append.mp hj with hj | hj
    · exact h.builtins j hj
    · rw [List.mem_singleton.mp hj]
      exact hi

theorem modifySlot (h : c.InRange) {i : SlotId} (hi : c.Has i) (f : Slot → Slot) :
    Yields c.Grounded (fun c' => c'.InRange ∧ c.size ≤ c'.size) (c.modifySlot i f) := by
  obtain ⟨s, hs⟩ := exists_slot?_of_index_lt hi
  have hsize : c.size ≤ (c.arena.modify i.index f).size := by
    rw [Array.size_modify]
    exact Nat.le_refl _
  rw [Context.modifySlot, hs]
  exact ⟨h.mono hsize rfl rfl, hsize⟩

theorem narrow (h : c.InRange) {i met : SlotId} (hi : c.Has i) (hmet : c.Has met) :
    Yields c.Grounded (fun c' => c'.InRange ∧ c.size ≤ c'.size) (c.narrow i met) := by
  refine (yields_slot hi).bind fun s _ => ?_
  split
  · exact (yields_slot hmet).bind fun t _ => h.modifySlot hi _
  · exact grounded_of_ne (by simp)

theorem resolve (h : c.InRange) {i : SlotId} (hi : c.Has i) :
    (c.resolve i).2.InRange ∧ c.size ≤ (c.resolve i).2.size ∧
      Yields c.Grounded (c.resolve i).2.Has (c.resolve i).1 := by
  have hwalk := yields_walk h.types c.config.recursionLimit c.config.recursionLimit hi
  obtain ⟨s, hs⟩ := exists_slot?_of_index_lt hi
  unfold Context.resolve walkFrom
  cases hrun : c.walk c.config.recursionLimit c.config.recursionLimit i with
  | error f =>
    rw [hrun] at hwalk
    exact ⟨h, Nat.le_refl _, hwalk.grounded⟩
  | ok r =>
    rw [hrun] at hwalk
    cases r with
    | some j => exact ⟨h, Nat.le_refl _, hwalk j rfl⟩
    | none =>
      simp only [slot_eq_ok_iff.mpr hs]
      have hreport : (c.report (Diagnostic.limitExceeded s.node (c.reportLocation s)
          c.config.recursionLimit)).InRange := h.mono (Nat.le_refl _) rfl rfl
      exact ⟨hreport.allocate _, size_le_allocate _ _, has_nextSlot _ _⟩

/-! ## New stores -/

theorem createBuiltin (h : c.InRange) (name : String) (slotFor : NodeId → Slot) :
    (c.createBuiltin name slotFor).2.InRange := by
  have hfresh : c.fresh.2.InRange := ⟨h.types, h.builtins⟩
  have hslot := hfresh.allocate (slotFor c.fresh.1)
  have hnamed : (((c.fresh.2.allocate (slotFor c.fresh.1)).2.fresh.2).addBuiltinName name
      (c.fresh.2.allocate (slotFor c.fresh.1)).2.fresh.1).InRange := ⟨hslot.types, hslot.builtins⟩
  exact hnamed.addBuiltin _ _ (has_nextSlot c.fresh.2 (slotFor c.fresh.1))

theorem createPrimitives (h : c.InRange) (ps : List (String × Shape)) :
    (ps.foldl createPrimitive c).InRange := by
  induction ps generalizing c with
  | nil => exact h
  | cons p ps ih =>
    have hp := h.createBuiltin p.1 fun node => .new node p.2
    exact ih ⟨hp.types, hp.builtins⟩

theorem createUnit (h : c.InRange) : c.createUnit.InRange := by
  have hunit := h.createBuiltin "()" fun node =>
    { Slot.new node .unit with declaration := .located .builtin }
  exact ⟨hunit.types, hunit.builtins⟩

end InRange

theorem inRange_new (config : Config) : (new config).InRange := by
  have hblank : (blank config).InRange := by
    refine ⟨fun n i hn => ?_, List.forall_mem_nil _⟩
    have : (∅ : NodeMap SlotId)[n]? = some i := hn
    simp at this
  exact (hblank.createPrimitives primitives).createUnit

/-! ## Copies -/

theorem CopyStep.inRange {c' : Context} (step : CopyStep c c') (h : c.InRange) : c'.InRange := by
  cases step with
  | push slot composite typed => exact h.allocate _
  | adopt slot => exact h.bindType _ (index_lt_of_slot? slot)
  | @rename i s state location locations slot infer =>
    have hfresh : c.fresh.2.InRange := ⟨h.types, h.builtins⟩
    exact (hfresh.register (s.renamedInfer c.supply.next state location)).mono
      (Nat.le_refl _) rfl rfl

theorem CopySteps.inRange {c' : Context} (steps : CopySteps c c') (h : c.InRange) :
    c'.InRange := by
  induction steps with
  | refl => exact h
  | tail _ step ih => exact step.inRange ih

section Drafts

variable {d : Draft} (h : (d.commit c).InRange)

theorem exists_draftSlot {i : SlotId} (hi : (d.commit c).Has i) :
    ∃ s, Copying.slot i d = .ok s d ∧ (d.commit c).slot? i = some s := by
  obtain ⟨s, hs⟩ := exists_slot?_of_index_lt hi
  refine ⟨s, ?_, hs⟩
  rw [Draft.slot?_commit] at hs
  rw [Copying.slot, hs]

include h

theorem grounded_target (v : TypeVar) :
    RunYields c.Grounded (fun i d' => d' = d ∧ (d.commit c).Has i) (Copying.target c v d) := by
  cases hrun : Copying.target c v d with
  | ok i d' =>
    obtain ⟨rfl, hi⟩ := Copying.target_eq_ok hrun
    exact ⟨rfl, h.types _ i hi⟩
  | error f d' =>
    -- the node has neither a note nor a type
    unfold Copying.target at hrun
    split at hrun
    · cases hrun
    · cases htype : c.typeOf? v.node with
      | some i =>
        rw [typeOf_eq_ok_iff.mpr htype] at hrun
        cases hrun
      | none =>
        rw [typeOf, htype] at hrun
        cases hrun
        exact Untyped.grounded ⟨v.node, rfl, htype⟩

theorem grounded_adopt {j : SlotId} (hj : (d.commit c).Has j) :
    RunYields c.Grounded (fun _ d' => (d'.commit c).InRange) (Copying.adopt j d) := by
  obtain ⟨s, hslot, -⟩ := exists_draftSlot hj
  rw [Copying.adopt, Copying.bind_of_ok hslot]
  exact h.bindType s.node hj

theorem grounded_copyChild {copy : SlotId → Copying SlotId}
    (hcopy : ∀ i d, (d.commit c).InRange → (d.commit c).Has i →
      RunYields c.Grounded (fun j d' => (d'.commit c).InRange ∧ (d'.commit c).Has j) (copy i d))
    (v : TypeVar) :
    RunYields c.Grounded (fun _ d' => (d'.commit c).InRange) (c.copyChild copy v d) := by
  refine RunYields.bind (grounded_target h v) ?_
  rintro i _ ⟨rfl, hi⟩
  split
  · exact h
  · exact RunYields.bind (hcopy i _ h hi) fun j d' hj => grounded_adopt hj.1 hj.2

theorem grounded_copyChildren {copy : SlotId → Copying SlotId}
    (hcopy : ∀ i d, (d.commit c).InRange → (d.commit c).Has i →
      RunYields c.Grounded (fun j d' => (d'.commit c).InRange ∧ (d'.commit c).Has j) (copy i d))
    (vars : List TypeVar) :
    RunYields c.Grounded (fun _ d' => (d'.commit c).InRange) (c.copyChildren copy vars d) := by
  induction vars generalizing d with
  | nil => exact h
  | cons v rest ih =>
    refine RunYields.bind (grounded_copyChild h hcopy v) fun w d' hd' => ?_
    exact RunYields.bind (ih hd') fun ws d'' hd'' => hd''

theorem grounded_copySlot (fuel : Nat) {i : SlotId} (hi : (d.commit c).Has i) :
    RunYields c.Grounded (fun j d' => (d'.commit c).InRange ∧ (d'.commit c).Has j)
      (c.copySlot fuel i d) := by
  induction fuel generalizing i d with
  | zero =>
    obtain ⟨s, hslot, -⟩ := exists_draftSlot hi
    rw [copySlot_zero hslot]
    exact grounded_of_ne (by simp)
  | succ fuel ih =>
    obtain ⟨s, hslot, hs⟩ := exists_draftSlot hi
    cases hinfer : s.isInfer with
    | true =>
      obtain ⟨state, location, hshape⟩ := Slot.isInfer_iff.mp hinfer
      rw [copySlot_of_infer hslot hshape]
      exact ⟨CopyStep.inRange (.rename hs hshape) h, has_nextSlot (d.commit c) _⟩
    | false =>
      rw [copySlot_of_composite hslot hinfer]
      refine RunYields.bind (grounded_copyChildren h (fun j d hd hj => ih hd hj) _) ?_
      intro vars d' hd'
      exact ⟨hd'.allocate _, has_nextSlot (d'.commit c) _⟩

end Drafts

/-- A whole copy, be it written down or abandoned. -/
theorem InRange.finish {α : Type} {x : Copying α} {Q : α → Context → Prop} (h : c.InRange)
    (steps : CopySteps c ((x.after (.start c)).commit c))
    (hx : RunYields c.Grounded (fun a d => Q a (d.commit c)) (x (.start c))) :
    (c.finish x).2.InRange ∧ c.size ≤ (c.finish x).2.size ∧
      Yields c.Grounded (fun a => Q a (c.finish x).2) (c.finish x).1 := by
  have hsize := CopySteps.size_le steps
  have hcommit := CopySteps.inRange steps h
  unfold Context.finish Copying.after EStateM.run at *
  cases hrun : x (.start c) with
  | ok a d =>
    simp only [hrun] at hx hsize hcommit ⊢
    exact ⟨hcommit, hsize, hx⟩
  | error f d =>
    simp only [hrun] at hx hsize ⊢
    exact ⟨h.mono hsize rfl rfl, hsize, hx⟩

end Context

end TypeStore
