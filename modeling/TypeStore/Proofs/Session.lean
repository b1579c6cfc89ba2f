import TypeStore.Proofs.WellFormed

/-!
# Sessions

A session starts from a new store and carries out one command after the other. As long as the
commands leave the table of types and the nodes of slots to the store, every store on the way is
well-formed: two nodes never have one type, and a node that a copy gives to an inference variable
had no type before.
-/

namespace TypeStore

namespace Context

/-! ## New stores -/

theorem wellFormed_blank (config : Config) : (blank config).WellFormed where
  made {n i} hn := by
    have : (∅ : NodeMap SlotId)[n]? = some i := hn
    simp at this
  minted {n i} hn := by
    have : (∅ : NodeMap SlotId)[n]? = some i := hn
    simp at this
  below {i s} hs := by
    have : (#[] : Array Slot)[i.index]? = some s := hs
    simp at this

private theorem toNat_add_one {a : UInt32} (h : a.toNat + 1 < 2 ^ 32) :
    (a + 1).toNat = a.toNat + 1 := by
  rw [UInt32.toNat_add]
  exact Nat.mod_eq_of_lt h

private theorem le_add_one {a : UInt32} (h : a.toNat + 1 < 2 ^ 32) : a ≤ a + 1 := by
  rw [UInt32.le_iff_toNat_le, toNat_add_one h]
  omega

/-- A builtin type takes two nodes, its own and that of its name, and one slot. -/
theorem WellFormed.createBuiltin {c : Context} (h : c.WellFormed) (name : String)
    {slotFor : NodeId → Slot} (hnode : ∀ n, (slotFor n).node = n)
    (hbinding : ∀ n, (slotFor n).binding = n) (hleaf : ∀ n, (slotFor n).shape.children = [])
    (hnodes : c.supply.next.raw.toNat + 2 < 2 ^ 32) (hslots : c.size < 2 ^ 32) :
    (c.createBuiltin name slotFor).2.WellFormed := by
  have hnext : c.supply.next.raw ≤ c.fresh.2.supply.next.raw := le_add_one (by omega)
  have hbelow : (slotFor c.supply.next).Below c.fresh.2.supply.next := by
    apply Slot.below_of_leaf ((hbinding _).trans (hnode _).symm) (hleaf _)
    rw [hnode, next_fresh, UInt32.lt_iff_toNat_lt, toNat_add_one (by omega)]
    omega
  -- the slot goes in between the two nodes, and the type is given after both
  have hslot := (h.fresh hnext).allocate hbelow
  have hname := hslot.fresh (le_add_one (by
    rw [supply_allocate, next_fresh, toNat_add_one (by omega)]
    omega))
  have htype := hname.bindType (slot?_allocate_nextSlot (c := c.fresh.2) hslots _)
  rw [hnode] at htype
  exact ⟨htype.made, htype.minted, htype.below⟩

theorem children_of_mem_primitives {p : String × Shape} (h : p ∈ primitives) :
    p.2.children = [] := by
  simp only [primitives, List.mem_cons, List.not_mem_nil, or_false] at h
  rcases h with rfl | rfl | rfl | rfl | rfl | rfl | rfl | rfl | rfl | rfl | rfl | rfl | rfl | rfl |
    rfl | rfl | rfl | rfl <;> rfl

theorem next_createPrimitive (c : Context) (p : String × Shape) :
    (c.createPrimitive p).supply.next.raw = c.supply.next.raw + 2 :=
  UInt32.add_assoc _ 1 1

theorem size_createPrimitive (c : Context) (p : String × Shape) :
    (c.createPrimitive p).size = c.size + 1 :=
  size_allocate c _

/-- Each primitive type takes two nodes, the supply starting over where it has to. -/
theorem next_createPrimitives (ps : List (String × Shape)) (c : Context) :
    (ps.foldl createPrimitive c).supply.next.raw
      = c.supply.next.raw + UInt32.ofNat (2 * ps.length) := by
  induction ps generalizing c with
  | nil => exact (UInt32.add_zero _).symm
  | cons p ps ih =>
    have hlength : 2 * (p :: ps).length = 2 + 2 * ps.length := by
      rw [List.length_cons]
      omega
    rw [List.foldl_cons, ih, next_createPrimitive, hlength, UInt32.ofNat_add, UInt32.add_assoc]
    rfl

theorem size_createPrimitives (ps : List (String × Shape)) (c : Context) :
    (ps.foldl createPrimitive c).size = c.size + ps.length := by
  induction ps generalizing c with
  | nil => rfl
  | cons p ps ih =>
    rw [List.foldl_cons, ih, size_createPrimitive, List.length_cons]
    omega

theorem WellFormed.createPrimitives {c : Context} (h : c.WellFormed)
    (ps : List (String × Shape)) (hleaf : ∀ p ∈ ps, p.2.children = [])
    (hnodes : c.supply.next.raw.toNat + 2 * ps.length < 2 ^ 32)
    (hslots : c.size + ps.length ≤ 2 ^ 32) : (ps.foldl createPrimitive c).WellFormed := by
  induction ps generalizing c with
  | nil => exact h
  | cons p ps ih =>
    rw [List.length_cons] at hnodes hslots
    have hp : (c.createBuiltin p.1 fun node => .new node p.2).2.WellFormed :=
      h.createBuiltin p.1 (fun _ => rfl) (fun _ => rfl) (fun _ => hleaf p List.mem_cons_self)
        (by omega) (by omega)
    have hnext : (c.createPrimitive p).supply.next.raw.toNat = c.supply.next.raw.toNat + 2 := by
      rw [next_createPrimitive, UInt32.toNat_add]
      exact Nat.mod_eq_of_lt (show c.supply.next.raw.toNat + 2 < 2 ^ 32 by omega)
    have hsize := size_createPrimitive c p
    exact ih ⟨hp.made, hp.minted, hp.below⟩ (fun q hq => hleaf q (List.mem_cons_of_mem _ hq))
      (by omega) (by omega)

theorem WellFormed.createUnit {c : Context} (h : c.WellFormed)
    (hnodes : c.supply.next.raw.toNat + 2 < 2 ^ 32) (hslots : c.size < 2 ^ 32) :
    c.createUnit.WellFormed := by
  have hunit : (c.createBuiltin "()" fun node =>
      { Slot.new node .unit with declaration := .located .builtin }).2.WellFormed :=
    h.createBuiltin "()" (fun _ => rfl) (fun _ => rfl) (fun _ => rfl) hnodes hslots
  exact ⟨hunit.made, hunit.minted, hunit.below⟩

theorem next_createUnit (c : Context) :
    c.createUnit.supply.next.raw = c.supply.next.raw + 2 :=
  UInt32.add_assoc _ 1 1

/-- A new store is well-formed unless the nodes of the builtin types are too many for the supply. -/
theorem wellFormed_new {config : Config} (hno : NoOverflow (blank config) (new config)) :
    (new config).WellFormed := by
  have hblank : (blank config).supply.next = config.firstNode := rfl
  have hlength : primitives.length = 18 := rfl
  have hfirst : config.firstNode.raw.toNat + 38 < 2 ^ 32 := by
    have hle := hno.nodes
    rw [new, next_createUnit, next_createPrimitives, hblank, hlength, UInt32.add_assoc,
      UInt32.le_iff_toNat_le, UInt32.toNat_add] at hle
    have hlt := UInt32.toNat_lt config.firstNode.raw
    have h38 : (UInt32.ofNat (2 * 18) + 2).toNat = 38 := rfl
    omega
  have hprimitives := (wellFormed_blank config).createPrimitives primitives
    (fun p hp => children_of_mem_primitives hp) (by rw [hblank, hlength]; omega)
    (by rw [hlength]; show 0 + 18 ≤ 2 ^ 32; omega)
  rw [new]
  apply hprimitives.createUnit
  · rw [next_createPrimitives, hblank, hlength, UInt32.toNat_add]
    have h36 : (UInt32.ofNat (2 * 18)).toNat = 36 := rfl
    omega
  · rw [size_createPrimitives, hlength]
    show 0 + 18 < 2 ^ 32
    omega

end Context

/-! ## Commands -/

/-- The commands that leave the table of types and the nodes of slots to the store. What is put
into the store may mention only nodes that have been minted. -/
def Command.Admissible (c : Context) : Command → Prop
  | allocate s => s.Below c.supply.next
  | register s => s.Below c.supply.next
  | bindType .. | bindSite .. | setNode .. | addBuiltin .. => False
  | _ => True

/-- The commands that copy. -/
def Command.isCopy : Command → Bool
  | copy _ => true
  | copyVar _ => true
  | _ => false

namespace Context

variable {c : Context}

theorem WellFormed.narrow (h : c.WellFormed) {i met : SlotId} {c' : Context}
    (hc : c.narrow i met = .ok c') : c'.WellFormed := by
  obtain ⟨s, state, location, t, hs, hshape, -, hmodify⟩ := narrow_eq_ok hc
  refine h.modifySlot hmodify ?_
  intro s' hs'
  rw [hs] at hs'
  cases hs'
  simp only [Slot.mentions, hshape, Shape.children]

theorem WellFormed.resolve (h : c.WellFormed) (i : SlotId) : (c.resolve i).2.WellFormed := by
  unfold Context.resolve
  split
  · exact h
  · exact h
  · split
    · exact h
    · rename_i s hs
      have hslot := slot_eq_ok_iff.mp hs
      have hreport : (c.report (Diagnostic.limitExceeded s.node (c.reportLocation s)
          c.config.recursionLimit)).WellFormed := ⟨h.made, h.minted, h.below⟩
      exact hreport.allocate (Slot.below_of_leaf rfl rfl (h.below hslot).node)

/-- One command of a session. -/
theorem WellFormed.exec (h : c.WellFormed) {command : Command} (ha : command.Admissible c)
    (hno : NoOverflow c (c.exec command).2) : (c.exec command).2.WellFormed := by
  cases command with
  | mint => exact h.fresh hno.nodes
  | allocate s => exact h.allocate ha
  | register s =>
    apply h.register ha
    have hsize : (c.register s).2.size ≤ 2 ^ 32 := hno.slots
    have : (c.register s).2.size = c.size + 1 := size_allocate c s
    omega
  | bindType node slot => exact ha.elim
  | bindSite site slot => exact ha.elim
  | setNode slot node => exact ha.elim
  | addBuiltin node nameNode slot => exact ha.elim
  | addBound slot b => exact attempt_keeps h fun _ hc => h.modifySlot hc fun _ _ => rfl
  | addBounds slot bs => exact attempt_keeps h fun _ hc => h.modifySlot hc fun _ _ => rfl
  | absorb slot node => exact attempt_keeps h fun _ hc => h.modifySlot hc fun _ _ => rfl
  | copy slot => exact h.finish (steps_copy c slot) hno
  | copyVar v => exact h.finish (steps_copyVar c v) hno
  | resolve slot => exact h.resolve slot
  | narrow slot met => exact attempt_keeps h fun _ hc => h.narrow hc
  | recordPath node path =>
    apply attempt_keeps h
    intro c' hc
    unfold recordPath at hc
    split at hc
    · cases hc
      exact ⟨h.made, h.minted, h.below⟩
    · split at hc
      · cases hc
        exact h
      · cases hc
  | recordAdjustments node steps =>
    apply attempt_keeps h
    intro c' hc
    unfold recordAdjustments at hc
    split at hc
    · cases hc
      exact ⟨h.made, h.minted, h.below⟩
    · cases hc
  | addEnumItem parent item =>
    apply attempt_keeps h
    intro c' hc
    unfold addEnumItem at hc
    split at hc
    · cases hc
      exact ⟨h.made, h.minted, h.below⟩
    · cases hc
  | setParent node parent =>
    show (c.setParent node parent).WellFormed
    unfold setParent
    split
    · exact h
    · exact ⟨h.made, h.minted, h.below⟩
  | _ => exact ⟨h.made, h.minted, h.below⟩

private theorem ok_of_map_eq_ok {α β : Type} {x : Except Fault α} {f : α → β} {b : β}
    (h : x.map f = .ok b) : ∃ a, x = .ok a := by
  cases x with
  | ok a => exact ⟨a, rfl⟩
  | error e => cases h

theorem WellFormed.exec_infer (h : c.WellFormed) {command : Command}
    (hcopy : command.isCopy = true) (hno : NoOverflow c (c.exec command).2) {k : SlotId} {s : Slot}
    (hk : c.size ≤ k.index) (hs : (c.exec command).2.slot? k = some s)
    (hinfer : s.isInfer = true) :
    c.typeOf? s.node = none ∧
      ((∃ r, (c.exec command).1 = .ok r) → (c.exec command).2.typeOf? s.node = some k) := by
  cases command with
  | copy i =>
    obtain ⟨hnone, hsome⟩ := h.finish_infer (steps_copy c i) hno hk hs hinfer
    refine ⟨hnone, ?_⟩
    rintro ⟨r, hr⟩
    exact hsome (ok_of_map_eq_ok hr)
  | copyVar v =>
    obtain ⟨hnone, hsome⟩ := h.finish_infer (steps_copyVar c v) hno hk hs hinfer
    refine ⟨hnone, ?_⟩
    rintro ⟨r, hr⟩
    exact hsome (ok_of_map_eq_ok hr)
  | _ => cases hcopy

/-! ## Runs -/

/-- A run of admissible commands, whatever they answer, within the width of ids. -/
def Orderly (c : Context) : List Command → Prop
  | [] => True
  | command :: rest =>
    command.Admissible c ∧ NoOverflow c (c.exec command).2 ∧ Orderly (c.exec command).2 rest

theorem WellFormed.run (h : c.WellFormed) {commands : List Command} (hrun : c.Orderly commands) :
    (c.run commands).WellFormed := by
  induction commands generalizing c with
  | nil => exact h
  | cons command rest ih =>
    obtain ⟨ha, hno, hrest⟩ := hrun
    exact ih (h.exec ha hno) hrest

/-- A store that a session comes to, whatever it is configured like and however long it runs. -/
def Reached (c : Context) : Prop :=
  ∃ config commands, NoOverflow (blank config) (new config) ∧
    (new config).Orderly commands ∧ c = (new config).run commands

theorem Reached.wellFormed (h : c.Reached) : c.WellFormed := by
  obtain ⟨config, commands, hnew, hrun, rfl⟩ := h
  exact (wellFormed_new hnew).run hrun

/-- In every store that a session comes to, types were made for the nodes that have them, every
node in use has been minted and bounds have ids of their own. So different nodes have different
types, and a copy names inference variables by nodes that had no type. -/
theorem reached_distinct_types_and_fresh_copies (h : c.Reached) :
    c.WellFormed ∧
      (∀ i s, c.slot? i = some s → (s.bounds.toList.map Bound.id).Nodup) ∧
      (∀ m n i, c.typeOf? m = some i → c.typeOf? n = some i → m = n) ∧
      ∀ command, command.isCopy = true → NoOverflow c (c.exec command).2 →
        ∀ k s, c.size ≤ k.index → (c.exec command).2.slot? k = some s → s.isInfer = true →
          c.typeOf? s.node = none ∧
            ((∃ r, (c.exec command).1 = .ok r) →
              (c.exec command).2.typeOf? s.node = some k) := by
  have hwf := h.wellFormed
  refine ⟨hwf, ?_, ?_, ?_⟩
  · intro i s _
    exact s.bounds.distinct
  · intro m n i hm hn
    exact hwf.typeOf?_inj hm hn
  · intro command hcopy hno k s hk hs hinfer
    exact hwf.exec_infer hcopy hno hk hs hinfer

/-- Makes an inference variable, a tuple of it and a tuple of that tuple. -/
def nestTuples : List Command :=
  [.mint, .register (.new ⟨45⟩ (.infer (.fresh .general) .unknown)),
    .mint, .register (.new ⟨46⟩ (.tuple [⟨⟨45⟩⟩])),
    .mint, .register (.new ⟨47⟩ (.tuple [⟨⟨46⟩⟩]))]

/-- A store with an inference variable two levels down. -/
def nestedTuples : Context := (new .standard).run nestTuples

theorem reached_nestedTuples : nestedTuples.Reached := by
  refine ⟨.standard, nestTuples, ?_, ⟨trivial, ?_, show Slot.Below _ _ from ?_, ?_, trivial, ?_,
    show Slot.Below _ _ from ?_, ?_, trivial, ?_, show Slot.Below _ _ from ?_, ?_, trivial⟩, rfl⟩
  all_goals decide +kernel

/-- Copying the outer tuple gives the inference variable inside it a node that had no type. -/
theorem nestedTuples_fresh_copy :
    nestedTuples.Reached ∧ nestedTuples.typeOf? ⟨48⟩ = none ∧
      (nestedTuples.exec (.copy ⟨21⟩)).2.typeOf? ⟨48⟩ = some ⟨22⟩ := by
  obtain ⟨-, -, -, hfresh⟩ := reached_distinct_types_and_fresh_copies reached_nestedTuples
  have hslot : ((nestedTuples.exec (.copy ⟨21⟩)).2.slot? ⟨22⟩).map
      (fun s => (s.node, s.isInfer)) = some (⟨48⟩, true) := by decide +kernel
  obtain ⟨s, hs, hpair⟩ := Option.map_eq_some_iff.mp hslot
  obtain ⟨hnode, hinfer⟩ := Prod.mk.inj hpair
  obtain ⟨hnone, hsome⟩ := hfresh (.copy ⟨21⟩) rfl (by decide +kernel) ⟨22⟩ s (by decide +kernel)
    hs hinfer
  rw [hnode] at hnone hsome
  exact ⟨reached_nestedTuples, hnone, hsome ⟨.slot ⟨24⟩, by rfl⟩⟩

end Context

end TypeStore
