import TypeStore.Proofs.Client

/-!
# Types that are lacking

A node may be mentioned before it has a type, or without ever having one. What a client gets to see
of that is one fault, which names the node. The operations that need the type of the node end in
it; giving the node a type, whichever, makes no difference to the answers of the others. So there
is no answer that goes by a type that is not there.
-/

namespace TypeStore

theorem RunPersists.text {P : Fault → Prop} {r r' : EStateM.Result Fault String Unit}
    (h : RunPersists P r r') : Persists P (Writing.text r) (Writing.text r') := by
  rcases h with rfl | ⟨f, s, hf, rfl⟩
  · exact .refl _
  · exact .of_fault hf _

namespace Context

variable {c : Context} {n : NodeId}

/-- The fault of lacking the type of a node. -/
def LacksType (n : NodeId) (f : Fault) : Prop := f = .error (.unknownType n)

/-- With a type for a node that has none, all that can be different is that it is found. -/
theorem upholdsCopies_bindType (hn : c.typeOf? n = none) (j : SlotId) :
    UpholdsCopies (LacksType n) c (c.bindType n j) where
  slot _ := .refl _
  typeOf k := by
    by_cases hk : n = k
    · subst hk
      refine .inr ⟨_, rfl, ?_⟩
      rw [typeOf, hn]
    · refine .inl ?_
      unfold typeOf
      rw [typeOf?_bindType, if_neg hk]
  associated _ := rfl
  builtin _ := rfl
  locations := rfl

theorem persists_ask (hn : c.typeOf? n = none) (j : SlotId) {question : Question}
    (hq : (Action.ask question).isLenient = false) :
    Persists (LacksType n) (c.ask question) ((c.bindType n j).ask question) := by
  have h := (upholdsCopies_bindType hn j).toUpholds
  cases question with
  | lookup | findBuiltin | fallback => cases hq
  | typeOf v => exact (h.typeOf v.node).map _
  | typeSlot v => exact ((h.typeOf v.node).bind fun i _ => h.slot i).map _
  | varFor k => exact ((h.typeOf k).bind fun _ _ => .refl _).map _
  | varOf i =>
    exact ((h.slot i).bind fun s _ => (h.typeOf s.node).bind fun _ _ => .refl _).map _
  | terminal i => exact (h.terminal rfl i).map _
  | parameterTarget i => exact (h.parameterTarget rfl i).map _
  | placeholderTarget i => exact (h.placeholderTarget i).map _
  | concrete i => exact (h.concreteWithin (.same (by rfl) _) [] i).map _
  | render i => exact (h.writeSlot (c.size + 1) i "").text.map _
  | write i buffer => exact (h.writeSlot (c.size + 1) i buffer).text.map _
  | _ => exact .refl _

/-! ## Changes in place and records

These do not look at types at all, so that a type more or less goes through them. -/

section Changes

variable (c : Context) (n : NodeId) (j : SlotId)

theorem modifySlot_bindType (i : SlotId) (f : Slot → Slot) :
    (c.bindType n j).modifySlot i f = (c.modifySlot i f).map (·.bindType n j) := by
  unfold modifySlot slot? bindType
  cases c.arena[i.index]? <;> rfl

theorem narrow_bindType (i met : SlotId) :
    (c.bindType n j).narrow i met = (c.narrow i met).map (·.bindType n j) := by
  have hslot : ∀ k, (c.bindType n j).slot k = c.slot k := fun k => rfl
  unfold narrow
  rw [hslot, hslot]
  cases c.slot i with
  | error f => rfl
  | ok s =>
    dsimp only [bind, Except.bind]
    split
    · cases c.slot met with
      | error f => rfl
      | ok t => exact modifySlot_bindType c n j i _
    · rfl

theorem recordPath_bindType (k : NodeId) (path : Path) :
    (c.bindType n j).recordPath k path = (c.recordPath k path).map (·.bindType n j) := by
  unfold recordPath bindType
  dsimp only
  split
  · rfl
  · split <;> rfl

theorem recordAdjustments_bindType (k : NodeId) (steps : List Adjustment) :
    (c.bindType n j).recordAdjustments k steps
      = (c.recordAdjustments k steps).map (·.bindType n j) := by
  unfold recordAdjustments bindType
  dsimp only
  split <;> rfl

theorem addEnumItem_bindType (parent : EnumRecord) (item : EnumItemRecord) :
    (c.bindType n j).addEnumItem parent item
      = (c.addEnumItem parent item).map (·.bindType n j) := by
  unfold addEnumItem enumItem? bindType
  dsimp only
  split <;> rfl

/-- Whether a change is made does not depend on what becomes of the store. -/
theorem attempt_eq {c c' : Context} {changed changed' : Except Fault Context}
    {g : Context → Context} (h : changed' = changed.map g) :
    (c'.attempt changed').1 = (c.attempt changed).1 := by
  rw [h]
  cases changed <;> rfl

end Changes

/-! ## Commands -/

theorem resolve_fst (c : Context) (i : SlotId) :
    (c.resolve i).1 = c.walkFrom i >>= fun r =>
      match r with
      | some j => .ok j
      | none => c.slot i >>= fun _ => .ok (nextSlot c.arena) := by
  unfold resolve
  cases c.walkFrom i with
  | error f => rfl
  | ok r =>
    cases r with
    | some j => rfl
    | none => cases c.slot i <;> rfl

theorem persists_exec (hn : c.typeOf? n = none) (j : SlotId) (command : Command) :
    Persists (LacksType n) (c.exec command).1 ((c.bindType n j).exec command).1 := by
  have h := upholdsCopies_bindType hn j
  cases command with
  | copy i =>
    have hcopy : Persists (LacksType n) (c.copy i).1 ((c.bindType n j).copy i).1 :=
      persists_finish (h.copySlot (.same (by rfl) _) i (.start c))
    exact hcopy.map _
  | copyVar v =>
    have hcopy : Persists (LacksType n) (c.copyVar v).1 ((c.bindType n j).copyVar v).1 :=
      persists_finish (h.copyChild (h.copySlot (.same (by rfl) _)) v (.start c))
    exact hcopy.map _
  | resolve i =>
    have hresolve : Persists (LacksType n) (c.resolve i).1 ((c.bindType n j).resolve i).1 := by
      rw [resolve_fst, resolve_fst]
      exact (h.walk _ _ i).bind fun _ _ => .refl _
    exact hresolve.map _
  | setNode i _ | addBound i _ | addBounds i _ | absorb i _ =>
    exact .inl (attempt_eq (modifySlot_bindType c n j i _))
  | narrow i met => exact .inl (attempt_eq (narrow_bindType c n j i met))
  | recordPath k path => exact .inl (attempt_eq (recordPath_bindType c n j k path))
  | recordAdjustments k steps => exact .inl (attempt_eq (recordAdjustments_bindType c n j k steps))
  | addEnumItem parent item => exact .inl (attempt_eq (addEnumItem_bindType c n j parent item))
  | _ => exact .refl _

theorem persists_perform (hn : c.typeOf? n = none) (j : SlotId) {a : Action}
    (ha : a.isLenient = false) :
    Persists (LacksType n) (c.perform a).1 ((c.bindType n j).perform a).1 := by
  cases a with
  | command command => exact (persists_exec hn j command).map _
  | edit i change =>
    have hedit : Persists (LacksType n) (c.attempt (c.modifySlot i change)).1
        ((c.bindType n j).attempt ((c.bindType n j).modifySlot i change)).1 :=
      .inl (attempt_eq (modifySlot_bindType c n j i change))
    exact hedit.map _
  | ask question => exact persists_ask hn j ha

/-! ## What a client gets to see -/

/-- The tables of a store that serves a client name slots that are there, and so do the ids that
the client has. No action on such ids comes to a missing slot. A node that is said to have no type
has none, and whatever does not end in that fault does not depend on the type. -/
theorem served_misses_no_slot {handed : List SlotId} (h : Served c handed) :
    (∀ n i, c.typeOf? n = some i → c.Has i) ∧ (∀ i ∈ c.builtins.slots, c.Has i) ∧
    (∀ i ∈ handed, c.Has i) ∧
    ∀ a : Action, (∀ i ∈ a.slots, i ∈ handed) →
      (∀ i, (c.perform a).1 ≠ .error (.missingSlot i)) ∧
      (∀ n, (c.perform a).1 = .error (.error (.unknownType n)) → c.typeOf? n = none) ∧
      ∀ n, c.typeOf? n = none → a.isLenient = false →
        (c.perform a).1 = .error (.error (.unknownType n)) ∨
          ∀ j, ((c.bindType n j).perform a).1 = (c.perform a).1 := by
  obtain ⟨hrange, hhanded⟩ := h.inRange
  refine ⟨hrange.types, hrange.builtins, hhanded, fun a honest => ?_⟩
  have hanswer := (hrange.perform fun i hi => hhanded i (honest i hi)).answer
  refine ⟨fun i hi => ?_, fun n hn => ?_, fun n hn ha => ?_⟩
  · rw [hi] at hanswer
    exact hanswer.present i rfl
  · rw [hn] at hanswer
    exact hanswer.untyped n rfl
  · by_cases hlacks : (c.perform a).1 = .error (.error (.unknownType n))
    · exact .inl hlacks
    · refine .inr fun j => (persists_perform hn j ha).eq ?_
      rintro f hf rfl
      exact hlacks hf

/-- Makes a tuple of a node without a type. -/
def makeTuple : Action := .command (.register (.new ⟨45⟩ (.tuple [⟨⟨46⟩⟩])))

/-- A store with a tuple of a node without a type. -/
def danglingTuple : Context := ((new .standard).perform makeTuple).2

theorem served_danglingTuple : Served danglingTuple [⟨19⟩] := by
  have hhanded : [] ++ (new .standard).handsOut makeTuple = [⟨19⟩] := by decide +kernel
  rw [← hhanded]
  exact .act makeTuple (.start .standard) (List.forall_mem_nil _)

/-- The tuple has no text because its child has no type, and copying it does not come to a
missing slot. -/
theorem danglingTuple_lacks_child :
    (danglingTuple.perform (.ask (.render ⟨19⟩))).1 = .error (.error (.unknownType ⟨46⟩)) ∧
      danglingTuple.typeOf? ⟨46⟩ = none ∧
      ∀ i, (danglingTuple.perform (.command (.copy ⟨19⟩))).1 ≠ .error (.missingSlot i) := by
  obtain ⟨-, -, -, hactions⟩ := served_misses_no_slot served_danglingTuple
  have hrender : (danglingTuple.perform (.ask (.render ⟨19⟩))).1
      = .error (.error (.unknownType ⟨46⟩)) := by rfl
  obtain ⟨-, huntyped, -⟩ := hactions (.ask (.render ⟨19⟩)) fun _ hi => hi
  obtain ⟨hpresent, -, -⟩ := hactions (.command (.copy ⟨19⟩)) fun _ hi => hi
  exact ⟨hrender, huntyped _ hrender, hpresent⟩

end Context

end TypeStore
