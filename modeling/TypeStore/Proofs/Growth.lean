import TypeStore.Proofs.Persistence
import TypeStore.Proofs.Session

/-!
# Growing stores

A store grows when slots are added behind the ones it has and nodes that had no type are given
one. Types are looked up anew each time they are needed, so a question could see everything that
was added since; but what it needed for an answer was there already, and the answer stays.

Most commands only let a store grow. The others change slots in place, give other types to nodes
that have one, or change what placeholders stand for.
-/

namespace TypeStore

namespace Context

/-- The second store is the first one with more slots and more types. -/
structure GrowsTo (c c' : Context) : Prop where
  arena : c.arena.toList <+: c'.arena.toList
  types : ∀ {n i}, c.typeOf? n = some i → c'.typeOf? n = some i
  associated : ∀ n : NodeId, c'.facts.associatedTypes[n]? = c.facts.associatedTypes[n]?
  limit : c'.config.recursionLimit = c.config.recursionLimit

namespace GrowsTo

variable {c c' : Context}

theorem refl (c : Context) : c.GrowsTo c :=
  ⟨List.prefix_refl _, fun h => h, fun _ => rfl, rfl⟩

theorem slot? (h : c.GrowsTo c') {i : SlotId} {s : Slot} (hs : c.slot? i = some s) :
    c'.slot? i = some s := by
  obtain ⟨hlt, rfl⟩ := Array.getElem?_eq_some_iff.mp hs
  show c'.arena[i.index]? = _
  rw [← Array.getElem?_toList, List.prefix_iff_getElem?.mp h.arena i.index hlt]
  rfl

/-! ## Answers -/

/-- Slots and types that are found go on being found; that they were not may pass. -/
theorem upholds (h : c.GrowsTo c') : Upholds (fun _ => True) c c' where
  slot i := by
    cases hs : c.slot i with
    | ok s => exact .inl (slot_eq_ok_iff.mpr (h.slot? (slot_eq_ok_iff.mp hs)))
    | error f => exact .of_fault trivial _
  typeOf n := by
    cases hn : c.typeOf n with
    | ok i => exact .inl (typeOf_eq_ok_iff.mpr (h.types (typeOf_eq_ok_iff.mp hn)))
    | error f => exact .of_fault trivial _
  associated := h.associated

theorem concrete (h : c.GrowsTo c') {i : SlotId} {b : Bool} (hb : c.concrete i = .ok b) :
    c'.concrete i = .ok b := by
  unfold Context.concrete
  rw [h.limit]
  exact (h.upholds.concreteWithin (.same h.limit _) [] i).ok hb

theorem render_eq_ok {i : SlotId} {s : String} :
    c.render i = .ok s ↔ c.write i "" = .ok () s := by
  unfold render EStateM.run
  cases c.write i "" with
  | ok a t => simp
  | error f t => simp

/-- The larger store may go deeper, but the text ends where it ended. -/
theorem render (h : c.GrowsTo c') {i : SlotId} {s : String} (hs : c.render i = .ok s) :
    c'.render i = .ok s := by
  rw [render_eq_ok] at hs ⊢
  have hwrite : c'.writeSlot (c.size + 1) i "" = .ok () s := by
    rcases h.upholds.writeSlot (c.size + 1) i "" with heq | ⟨f, t, -, heq⟩
    · exact heq.trans hs
    · rw [write, heq] at hs
      cases hs
  have hend : ¬ Writing.Endless (c'.writeSlot (c.size + 1) i "") := by
    rw [hwrite]
    rintro ⟨k, t, hk⟩
    cases hk
  rw [write_eq_of_not_endless hend, hwrite]

end GrowsTo

end Context

/-! ## Commands -/

/-- The commands that record facts and items, mint nodes or hand out diagnostics, and have nothing
to do with types. -/
def Command.isRecord : Command → Bool
  | mint | setUnitNode _ | takeDiagnostics => true
  | recordPath .. | recordLocation .. | recordName .. | recordPredicate .. => true
  | recordAdjustments .. | recordCapture .. => true
  | addCrate .. | setCurrentCrate _ | addModule _ | addChild .. | setParent .. => true
  | addItem _ | addEnum _ | addEnumItem .. | setVariant .. => true
  | addImpl _ | addExternal _ | addAssociated _ => true
  | _ => false

/-- The commands that only add to a store: they make slots, give types to nodes that have none, or
have nothing to do with types. -/
def Command.OnlyAdds (c : Context) : Command → Prop
  | allocate _ | resolve _ => True
  | register s => c.typeOf? s.node = none
  | bindType node _ => c.typeOf? node = none
  | bindSite site _ => c.typeOf? site.node = none
  | addBuiltin node _ _ => c.typeOf? node = none
  | command => command.isRecord = true

namespace Context

variable {c : Context}

/-- As far as types go, the store is as before. -/
structure SameTypes (c c' : Context) : Prop where
  arena : c'.arena = c.arena
  types : c'.types = c.types
  builtins : c'.builtins.slots = c.builtins.slots
  associated : c'.facts.associatedTypes = c.facts.associatedTypes
  config : c'.config = c.config

theorem SameTypes.refl (c : Context) : c.SameTypes c := ⟨rfl, rfl, rfl, rfl, rfl⟩

/-- A refusal that has nothing to do with types either. -/
def Refusal (f : Fault) : Prop := ∃ e, f = .error e ∧ ∀ n, e ≠ .unknownType n

theorem yields_recordPath (c : Context) (n : NodeId) (path : Path) :
    Yields Refusal c.SameTypes (c.recordPath n path) := by
  unfold recordPath
  split
  · exact ⟨rfl, rfl, rfl, rfl, rfl⟩
  · split
    · exact .refl c
    · exact ⟨_, rfl, by simp⟩

theorem yields_recordAdjustments (c : Context) (n : NodeId) (steps : List Adjustment) :
    Yields Refusal c.SameTypes (c.recordAdjustments n steps) := by
  unfold recordAdjustments
  split
  · exact ⟨rfl, rfl, rfl, rfl, rfl⟩
  · exact ⟨_, rfl, by simp⟩

theorem yields_addEnumItem (c : Context) (parent : EnumRecord) (item : EnumItemRecord) :
    Yields Refusal c.SameTypes (c.addEnumItem parent item) := by
  unfold addEnumItem
  split
  · exact ⟨rfl, rfl, rfl, rfl, rfl⟩
  · exact ⟨_, rfl, by simp⟩

theorem SameTypes.attempt {P : Fault → Prop} {changed : Except Fault Context}
    (h : Yields P c.SameTypes changed) : c.SameTypes (c.attempt changed).2 := by
  cases changed with
  | ok c' => exact h
  | error f => exact .refl c

theorem sameTypes_exec {command : Command} (h : command.isRecord = true) :
    c.SameTypes (c.exec command).2 := by
  cases command with
  | recordPath node path => exact .attempt (yields_recordPath c node path)
  | recordAdjustments node steps => exact .attempt (yields_recordAdjustments c node steps)
  | addEnumItem parent item => exact .attempt (yields_addEnumItem c parent item)
  | setParent node parent =>
    show c.SameTypes (c.setParent node parent)
    unfold setParent
    split
    · exact .refl c
    · exact ⟨rfl, rfl, rfl, rfl, rfl⟩
  | allocate | register | bindType | bindSite | setNode | addBound | addBounds => cases h
  | absorb | addBuiltin | copy | copyVar | resolve | narrow => cases h
  | mapPlaceholder | unmapPlaceholder => cases h
  | _ => exact ⟨rfl, rfl, rfl, rfl, rfl⟩

theorem SameTypes.growsTo {c' : Context} (h : c.SameTypes c') : c.GrowsTo c' where
  arena := h.arena ▸ List.prefix_refl _
  types hn := by
    unfold typeOf? at hn ⊢
    rwa [h.types]
  associated n := by rw [h.associated]
  limit := by rw [h.config]

theorem GrowsTo.allocate {c₀ : Context} (h : c₀.GrowsTo c) (s : Slot) :
    c₀.GrowsTo (c.allocate s).2 where
  arena := by
    show c₀.arena.toList <+: (c.arena.push s).toList
    rw [Array.toList_push]
    exact h.arena.trans (List.prefix_append _ _)
  types hn := h.types hn
  associated := h.associated
  limit := h.limit

theorem GrowsTo.bindType {c₀ : Context} (h : c₀.GrowsTo c) {n : NodeId}
    (hn : c₀.typeOf? n = none) (i : SlotId) : c₀.GrowsTo (c.bindType n i) where
  arena := h.arena
  types {k j} hk := by
    rw [typeOf?_bindType, if_neg]
    · exact h.types hk
    · rintro rfl
      rw [hn] at hk
      cases hk
  associated := h.associated
  limit := h.limit

theorem growsTo_resolve (c : Context) (i : SlotId) : c.GrowsTo (c.resolve i).2 := by
  unfold resolve
  split
  · exact .refl c
  · exact .refl c
  · split
    · exact .refl c
    · rename_i s _
      have hreport : c.GrowsTo (c.report (Diagnostic.limitExceeded s.node (c.reportLocation s)
          c.config.recursionLimit)) := SameTypes.growsTo ⟨rfl, rfl, rfl, rfl, rfl⟩
      exact hreport.allocate _

theorem growsTo_exec {command : Command} (h : command.OnlyAdds c) :
    c.GrowsTo (c.exec command).2 := by
  cases command with
  | allocate s => exact (GrowsTo.refl c).allocate s
  | register s => exact ((GrowsTo.refl c).allocate s).bindType h _
  | bindType node slot => exact (GrowsTo.refl c).bindType h slot
  | bindSite site slot => exact (GrowsTo.refl c).bindType h slot
  | addBuiltin node nameNode slot =>
    have hbind := (GrowsTo.refl c).bindType h slot
    exact ⟨hbind.arena, hbind.types, hbind.associated, hbind.limit⟩
  | resolve slot => exact growsTo_resolve c slot
  | _ => exact (sameTypes_exec h).growsTo

/-- What is answered stays answered in every store that a store grows to, and every command that
only adds makes it grow. -/
theorem growth_keeps_answers :
    (∀ c c' : Context, c.GrowsTo c' → ∀ i,
      (∀ j, c.terminal i = .ok j → c'.terminal i = .ok j) ∧
      (∀ j, c.parameterTarget i = .ok j → c'.parameterTarget i = .ok j) ∧
      (∀ j, c.placeholderTarget i = .ok j → c'.placeholderTarget i = .ok j) ∧
      (∀ b, c.concrete i = .ok b → c'.concrete i = .ok b) ∧
      (∀ s, c.render i = .ok s → c'.render i = .ok s)) ∧
    ∀ (c : Context) (command : Command), command.OnlyAdds c → c.GrowsTo (c.exec command).2 := by
  refine ⟨fun c c' h i => ⟨?_, ?_, ?_, ?_, ?_⟩, fun c command => growsTo_exec⟩
  · intro j hj
    exact (h.upholds.terminal h.limit i).ok hj
  · intro j hj
    exact (h.upholds.parameterTarget h.limit i).ok hj
  · intro j hj
    exact (h.upholds.placeholderTarget i).ok hj
  · intro b hb
    exact h.concrete hb
  · intro s hs
    exact h.render hs

/-- A type for a node that had none leaves the text of a tuple as it was. -/
theorem nestedTuples_growth :
    nestedTuples.typeOf? ⟨48⟩ = none ∧ nestedTuples.render ⟨21⟩ = .ok "((T?))" ∧
      (nestedTuples.exec (.register (.new ⟨48⟩ .bool))).2.render ⟨21⟩ = .ok "((T?))" := by
  have hnone : nestedTuples.typeOf? ⟨48⟩ = none := by decide +kernel
  have htext : nestedTuples.render ⟨21⟩ = .ok "((T?))" := by decide +kernel
  obtain ⟨hanswers, hcommands⟩ := growth_keeps_answers
  have hgrows := hcommands nestedTuples (.register (.new ⟨48⟩ .bool)) hnone
  obtain ⟨-, -, -, -, hrender⟩ := hanswers _ _ hgrows ⟨21⟩
  exact ⟨hnone, htext, hrender _ htext⟩

end Context

end TypeStore
