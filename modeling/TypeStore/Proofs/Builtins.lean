import TypeStore.Proofs.History

/-!
# Builtin types over a session

A new store has nineteen builtin types. Each takes one slot and two nodes, its own and that of its
written name, and the nodes follow one another even where the supply starts over from zero
(`built_new`). A builtin type is found by its text, in a list that only grows at its end, and its
text needs no other type. So whatever a session does to the table of types or to the nodes and
bounds of builtin slots, every builtin type is found again, and inference variables have their
fallbacks.
-/

namespace TypeStore

/-- The builtin types with their texts, in the order of creation. -/
def builtinTypes : List (String × Shape) := primitives ++ [("()", .unit)]

/-- The node that is minted after a number of others, starting over from zero if need be. -/
def NodeId.after (first : NodeId) (count : Nat) : NodeId := ⟨first.raw + UInt32.ofNat count⟩

namespace NodeId

theorem after_zero (first : NodeId) : first.after 0 = first := by
  simp [after]

theorem after_after (first : NodeId) (j k : Nat) :
    (first.after j).after k = first.after (j + k) := by
  simp [after, UInt32.ofNat_add, UInt32.add_assoc]

/-- Nodes repeat only after all of them have been minted. -/
theorem after_inj {first : NodeId} {j k : Nat} (hj : j < 2 ^ 32) (hk : k < 2 ^ 32)
    (h : first.after j = first.after k) : j = k := by
  have hraw : UInt32.ofNat j = UInt32.ofNat k := UInt32.add_right_inj _ |>.mp (congrArg raw h)
  have hmod : j % 2 ^ 32 = k % 2 ^ 32 := by
    simpa using congrArg UInt32.toNat hraw
  omega

end NodeId

namespace Context

/-! ## Creating a builtin type -/

section Create

variable (c : Context) (name : String) (slotFor : NodeId → Slot)

theorem slot?_createBuiltin (i : SlotId) :
    (c.createBuiltin name slotFor).2.slot? i
      = if i.index = c.size then some (slotFor c.supply.next) else c.slot? i :=
  slot?_allocate c _ i

theorem typeOf?_createBuiltin (n : NodeId) :
    (c.createBuiltin name slotFor).2.typeOf? n
      = if c.supply.next = n then some (nextSlot c.arena) else c.typeOf? n :=
  NodeMap.getElem?_insert_eq c.types _ n _

theorem names_createBuiltin :
    (c.createBuiltin name slotFor).2.builtins.names
      = c.builtins.names ++ [(name, c.supply.next.after 1)] := rfl

theorem aliases_createBuiltin (n : NodeId) :
    (c.createBuiltin name slotFor).2.builtins.aliases[n]?
      = if c.supply.next.after 1 = n then some c.supply.next else c.builtins.aliases[n]? :=
  NodeMap.getElem?_insert_eq c.builtins.aliases _ n _

end Create

/-- A builtin type in its place: the slot, the type of its node, its written name, and the node of
the type under the node of the name. -/
structure BuiltAt (c : Context) (first : NodeId) (k : Nat) (name : String) (shape : Shape) :
    Prop where
  slot : ∃ s, c.slot? ⟨k⟩ = some s ∧ s.node = first.after (2 * k) ∧ s.shape = shape
  type : c.typeOf? (first.after (2 * k)) = some ⟨k⟩
  named : c.builtins.names[k]? = some (name, first.after (2 * k + 1))
  written : c.builtins.aliases[first.after (2 * k + 1)]? = some (first.after (2 * k))

/-- The store has been given these builtin types, and nothing else. -/
structure Built (c : Context) (first : NodeId) (types : List (String × Shape)) : Prop where
  size : c.size = types.length
  next : c.supply.next = first.after (2 * types.length)
  slots : c.builtins.slots = (List.range types.length).map SlotId.mk
  names : c.builtins.names.map Prod.fst = types.map Prod.fst
  entry : ∀ {k name shape}, types[k]? = some (name, shape) → c.BuiltAt first k name shape

theorem built_blank (config : Config) : (blank config).Built config.firstNode [] where
  size := rfl
  next := (NodeId.after_zero _).symm
  slots := rfl
  names := rfl
  entry h := by simp at h

namespace Built

variable {c : Context} {first : NodeId} {types : List (String × Shape)} (h : c.Built first types)

include h

theorem length_names : c.builtins.names.length = types.length := by
  simpa using congrArg List.length h.names

theorem nextSlot_eq (hroom : types.length < 2 ^ 31) : nextSlot c.arena = ⟨types.length⟩ := by
  rw [← h.size]
  exact SlotId.ext (index_nextSlot (by rw [h.size]; omega))

theorem nameNode : c.supply.next.after 1 = first.after (2 * types.length + 1) := by
  rw [h.next, NodeId.after_after]

/-- The nodes of a further builtin type are others than those of an earlier one. -/
theorem entry_createBuiltin (hroom : types.length < 2 ^ 31) (name : String)
    (slotFor : NodeId → Slot) {k : Nat} {name' : String} {shape : Shape}
    (hk : types[k]? = some (name', shape)) :
    (c.createBuiltin name slotFor).2.BuiltAt first k name' shape := by
  have hlt : k < types.length := (List.getElem?_eq_some_iff.mp hk).1
  have hentry := h.entry hk
  constructor
  · obtain ⟨s, hs, hrest⟩ := hentry.slot
    have hne : k ≠ c.size := by
      rw [h.size]
      omega
    exact ⟨s, by rw [slot?_createBuiltin, if_neg hne, hs], hrest⟩
  · have hne : c.supply.next ≠ first.after (2 * k) := by
      rw [h.next]
      intro heq
      have := NodeId.after_inj (by omega) (by omega) heq
      omega
    rw [typeOf?_createBuiltin, if_neg hne, hentry.type]
  · rw [names_createBuiltin, List.getElem?_append_left (by rw [h.length_names]; exact hlt),
      hentry.named]
  · have hne : c.supply.next.after 1 ≠ first.after (2 * k + 1) := by
      rw [h.nameNode]
      intro heq
      have := NodeId.after_inj (by omega) (by omega) heq
      omega
    rw [aliases_createBuiltin, if_neg hne, hentry.written]

/-- A further builtin type takes the next slot and the next two nodes. -/
theorem builtAt_createBuiltin (hroom : types.length < 2 ^ 31) (name : String)
    {slotFor : NodeId → Slot} (hnode : ∀ n, (slotFor n).node = n) :
    (c.createBuiltin name slotFor).2.BuiltAt first types.length name
      (slotFor c.supply.next).shape := by
  constructor
  · refine ⟨slotFor c.supply.next, ?_, ?_, rfl⟩
    · rw [slot?_createBuiltin, if_pos h.size.symm]
    · rw [hnode, h.next]
  · rw [typeOf?_createBuiltin, if_pos h.next, h.nextSlot_eq hroom]
  · rw [names_createBuiltin, List.getElem?_append_right (by rw [h.length_names]),
      h.length_names, h.nameNode]
    simp
  · rw [aliases_createBuiltin, if_pos h.nameNode, h.next]

theorem createBuiltin (hroom : types.length < 2 ^ 31) (name : String) {shape : Shape}
    {slotFor : NodeId → Slot} (hnode : ∀ n, (slotFor n).node = n)
    (hshape : ∀ n, (slotFor n).shape = shape) :
    (c.createBuiltin name slotFor).2.Built first (types ++ [(name, shape)]) := by
  constructor
  · rw [List.length_append, ← h.size]
    exact size_allocate c _
  · show (⟨c.supply.next.raw + 1 + 1⟩ : NodeId) = first.after (2 * (types ++ [_]).length)
    rw [List.length_append, List.length_singleton, Nat.mul_add, ← NodeId.after_after, ← h.next,
      UInt32.add_assoc]
    rfl
  · show c.builtins.slots ++ [nextSlot c.arena] = _
    simp [h.slots, h.nextSlot_eq hroom, List.range_succ]
  · simp [names_createBuiltin, h.names]
  · intro k name' shape' hk
    rcases Nat.lt_or_ge k types.length with hlt | hge
    · rw [List.getElem?_append_left hlt] at hk
      exact h.entry_createBuiltin hroom name slotFor hk
    · have hlast : k = types.length := by
        have := (List.getElem?_eq_some_iff.mp hk).1
        rw [List.length_append, List.length_singleton] at this
        omega
      rw [hlast, List.getElem?_append_right (Nat.le_refl _), Nat.sub_self] at hk
      cases hk
      rw [hlast, ← hshape c.supply.next]
      exact h.builtAt_createBuiltin hroom name hnode

/-- What else becomes known of builtin types leaves them in their places. -/
theorem congr {c' : Context} (harena : c'.arena = c.arena) (hsupply : c'.supply = c.supply)
    (htypes : c'.types = c.types) (hslots : c'.builtins.slots = c.builtins.slots)
    (hnames : c'.builtins.names = c.builtins.names)
    (haliases : c'.builtins.aliases = c.builtins.aliases) : c'.Built first types := by
  constructor
  · rw [Context.size, harena]
    exact h.size
  · rw [hsupply, h.next]
  · rw [hslots, h.slots]
  · rw [hnames, h.names]
  · intro k name shape hk
    have hentry := h.entry hk
    constructor
    · rw [slot?, harena]
      exact hentry.slot
    · rw [typeOf?, htypes]
      exact hentry.type
    · rw [hnames, hentry.named]
    · rw [haliases, hentry.written]

theorem createPrimitive (hroom : types.length < 2 ^ 31) (p : String × Shape) :
    (c.createPrimitive p).Built first (types ++ [p]) := by
  have hbuilt : (c.createBuiltin p.1 fun node => .new node p.2).2.Built first (types ++ [p]) :=
    h.createBuiltin hroom p.1 (fun _ => rfl) (fun _ => rfl)
  exact hbuilt.congr rfl rfl rfl rfl rfl rfl

theorem createPrimitives (ps : List (String × Shape))
    (hroom : types.length + ps.length ≤ 2 ^ 31) :
    (ps.foldl Context.createPrimitive c).Built first (types ++ ps) := by
  induction ps generalizing c types with
  | nil => simpa using h
  | cons p ps ih =>
    rw [List.length_cons] at hroom
    have hp := h.createPrimitive (by omega) p
    have hps := ih hp (by rw [List.length_append, List.length_singleton]; omega)
    rwa [List.append_assoc] at hps

theorem createUnit (hroom : types.length < 2 ^ 31) :
    c.createUnit.Built first (types ++ [("()", .unit)]) := by
  have hbuilt : (c.createBuiltin "()" fun node =>
      { Slot.new node .unit with declaration := .located .builtin }).2.Built first
        (types ++ [("()", .unit)]) :=
    h.createBuiltin hroom "()" (fun _ => rfl) (fun _ => rfl)
  exact hbuilt.congr rfl rfl rfl rfl rfl rfl

end Built

theorem built_new (config : Config) : (new config).Built config.firstNode builtinTypes := by
  have hlength : primitives.length = 18 := rfl
  have hprimitives := (built_blank config).createPrimitives primitives (by simp [hlength])
  exact hprimitives.createUnit (by simp [hlength])

/-! ## Texts -/

theorem writePieces_texts (c : Context) (write : SlotId → Writing Unit) (texts : List String)
    (b : String) :
    c.writePieces write (texts.map Piece.text) b = .ok () (texts.foldl (· ++ ·) b) := by
  induction texts generalizing b with
  | nil => rfl
  | cons t texts ih => exact ih (b ++ t)

/-- A slot whose layout has no children is written as it stands. -/
theorem render_of_texts {c : Context} {i : SlotId} {s : Slot} {texts : List String}
    (hs : c.slot? i = some s) (hlayout : s.layout? = some (texts.map Piece.text)) :
    c.render i = .ok (texts.foldl (· ++ ·) "") := by
  have hlayoutOf : c.layoutOf i = .ok (texts.map Piece.text) := by
    rw [layoutOf, slot_eq_ok_iff.mpr hs]
    show s.layout = _
    rw [Slot.layout, hlayout]
  have hwrite : c.write i "" = .ok () (texts.foldl (· ++ ·) "") := by
    rw [write, writeSlot_succ_of_ok hlayoutOf, writePieces_texts]
  exact GrowsTo.render_eq_ok.mpr hwrite

/-- The name of a primitive type is its text. -/
theorem layout?_of_mem_primitives {s : Slot} :
    ∀ p ∈ primitives, s.shape = p.2 → s.layout? = some [.text p.1] := by
  simp +contextual [primitives, Slot.layout?, Scalar.name]

/-- The text of a builtin type has no other type in it. -/
theorem layout?_of_mem_builtinTypes {name : String} {shape : Shape} {s : Slot}
    (hmem : (name, shape) ∈ builtinTypes) (hs : s.shape = shape) :
    ∃ texts : List String,
      s.layout? = some (texts.map Piece.text) ∧ texts.foldl (· ++ ·) "" = name := by
  rw [builtinTypes, List.mem_append, List.mem_singleton] at hmem
  rcases hmem with hprimitive | hunit
  · exact ⟨[name], layout?_of_mem_primitives _ hprimitive hs, String.empty_append⟩
  · cases hunit
    exact ⟨["(", ")"], by simp [Slot.layout?, hs, Shape.unit, Piece.commas], rfl⟩

theorem nodup_builtinTypes : (builtinTypes.map Prod.fst).Nodup := by decide

theorem scalar_mem_builtinTypes (n : Scalar) : (n.name, Shape.scalar n) ∈ builtinTypes := by
  cases n with
  | int w => cases w <;> decide
  | uint w => cases w <;> decide
  | float w => cases w <;> decide
  | usize => decide
  | isize => decide

theorem isInfer_of_mem_builtinTypes {name : String} {shape : Shape} {s : Slot}
    (hmem : (name, shape) ∈ builtinTypes) (hs : s.shape = shape) : s.isInfer = false := by
  have hall : ∀ p ∈ builtinTypes, (Slot.new ⟨0⟩ p.2).isInfer = false := by decide
  have hnew : (Slot.new ⟨0⟩ shape).isInfer = false := hall _ hmem
  rwa [← Slot.isInfer_congr hs] at hnew

/-! ## Finding by text -/

/-- The search takes the first slot with the text if those before it have other texts, whatever
comes after it. -/
theorem findByText_eq {c : Context} {text : String} {slots : List SlotId} {k : Nat} {i : SlotId}
    (hk : slots[k]? = some i) (htext : c.render i = .ok text)
    (hbefore : ∀ j i', j < k → slots[j]? = some i' → ∃ s, c.render i' = .ok s ∧ s ≠ text) :
    c.findByText text slots = .ok (some i) := by
  induction slots generalizing k with
  | nil => simp at hk
  | cons i₀ rest ih =>
    cases k with
    | zero =>
      cases hk
      simp [findByText, htext]
    | succ k =>
      obtain ⟨s, hs, hne⟩ := hbefore 0 i₀ (Nat.succ_pos k) rfl
      simp only [findByText, hs, if_neg hne]
      exact ih hk fun j i' hj hi' => hbefore (j + 1) i' (Nat.succ_lt_succ hj) hi'

/-- The builtin types are in their slots, and before any other on the list that is searched. -/
structure HasBuiltins (c : Context) : Prop where
  listed : ∀ {k}, k < builtinTypes.length → c.builtins.slots[k]? = some ⟨k⟩
  slot : ∀ {k name shape}, builtinTypes[k]? = some (name, shape) →
    ∃ s, c.slot? ⟨k⟩ = some s ∧ s.shape = shape

theorem hasBuiltins_new (config : Config) : (new config).HasBuiltins where
  listed {k} hk := by
    rw [(built_new config).slots]
    simp [hk]
  slot hk := by
    obtain ⟨s, hs, -, hshape⟩ := ((built_new config).entry hk).slot
    exact ⟨s, hs, hshape⟩

namespace HasBuiltins

variable {c c' : Context}

/-- Nothing that a store goes through takes its builtin types away. -/
theorem develops {narrowed : SlotId → Prop} (h : c.HasBuiltins)
    (hdevelops : c.Develops narrowed c') : c'.HasBuiltins where
  listed {k} hk := by
    obtain ⟨more, hmore⟩ := hdevelops.builtins
    have hlisted := h.listed hk
    rw [← hmore, List.getElem?_append_left (List.getElem?_eq_some_iff.mp hlisted).1, hlisted]
  slot {k name shape} hk := by
    obtain ⟨s, hs, hshape⟩ := h.slot hk
    obtain ⟨t, ht, hst⟩ := hdevelops.slot hs
    have hinfer := isInfer_of_mem_builtinTypes (List.mem_of_getElem? hk) hshape
    exact ⟨t, ht, (hst.shape_eq hinfer).trans hshape⟩

theorem run (h : c.HasBuiltins) (commands : List Command) : (c.run commands).HasBuiltins :=
  h.develops (develops_run c commands)

theorem render (h : c.HasBuiltins) {k : Nat} {name : String} {shape : Shape}
    (hk : builtinTypes[k]? = some (name, shape)) : c.render ⟨k⟩ = .ok name := by
  obtain ⟨s, hs, hshape⟩ := h.slot hk
  obtain ⟨texts, hlayout, htext⟩ := layout?_of_mem_builtinTypes (List.mem_of_getElem? hk) hshape
  rw [render_of_texts hs hlayout, htext]

theorem findBuiltin (h : c.HasBuiltins) {k : Nat} {name : String} {shape : Shape}
    (hk : builtinTypes[k]? = some (name, shape)) : c.findBuiltin name = .ok (some ⟨k⟩) := by
  have hlt : k < builtinTypes.length := (List.getElem?_eq_some_iff.mp hk).1
  refine findByText_eq (h.listed hlt) (h.render hk) ?_
  intro j i hj hi
  have hjlt : j < builtinTypes.length := Nat.lt_trans hj hlt
  rw [h.listed hjlt] at hi
  cases hi
  obtain ⟨⟨other, shape'⟩, hother⟩ : ∃ p, builtinTypes[j]? = some p :=
    ⟨_, List.getElem?_eq_getElem hjlt⟩
  refine ⟨other, h.render hother, ?_⟩
  -- no two builtin types have the same text
  rintro rfl
  have hne := List.nodup_iff_getElem?_ne_getElem?.mp nodup_builtinTypes j k hj
    (by rwa [List.length_map])
  simp [hother, hk] at hne

theorem fallback (h : c.HasBuiltins) {i : SlotId} {s : Slot} {state : Inference.State}
    {location : Location} {scalar : Scalar} (hs : c.slot? i = some s)
    (hshape : s.shape = .infer state location) (hdefault : state.default? = some scalar) :
    ∃ k, k < builtinTypes.length ∧ c.fallback i = .ok (some ⟨k⟩) ∧
      c.render ⟨k⟩ = .ok scalar.name := by
  obtain ⟨k, hk⟩ := List.getElem?_of_mem (scalar_mem_builtinTypes scalar)
  refine ⟨k, (List.getElem?_eq_some_iff.mp hk).1, ?_, h.render hk⟩
  rw [fallback_of_infer hs hshape, hdefault]
  exact h.findBuiltin hk

end HasBuiltins

/-- Whatever ids a session starts from and whatever it does, each builtin type is found by its
text, in the slot and with the shape it was created with, and every inference variable that stands
for a number falls back to one of them; one that may become any type has no fallback. In a new
store, moreover, the node of a builtin type has that slot as its type, and the node of its written
name leads to it. -/
theorem builtins_stay (config : Config) (commands : List Command) :
    (new config).builtins.names.map Prod.fst = builtinTypes.map Prod.fst ∧
      builtinTypes.length = 19 ∧
      (∀ k name shape, builtinTypes[k]? = some (name, shape) →
        (∃ s nameNode, (new config).slot? ⟨k⟩ = some s ∧ s.shape = shape ∧
          (new config).typeOf? s.node = some ⟨k⟩ ∧
          (new config).builtins.names[k]? = some (name, nameNode) ∧
          (new config).builtins.aliases[nameNode]? = some s.node) ∧
        ((new config).run commands).findBuiltin name = .ok (some ⟨k⟩) ∧
        ∃ s, ((new config).run commands).slot? ⟨k⟩ = some s ∧ s.shape = shape) ∧
      ∀ i s state location, ((new config).run commands).slot? i = some s →
        s.shape = .infer state location →
        (((new config).run commands).fallback i = .ok none ↔ state.category = .general) ∧
        (state.category ≠ .general → ∃ k scalar, k < builtinTypes.length ∧
          state.default? = some scalar ∧
          ((new config).run commands).fallback i = .ok (some ⟨k⟩) ∧
          ((new config).run commands).render ⟨k⟩ = .ok scalar.name) := by
  have hnew := built_new config
  have hrun := (hasBuiltins_new config).run commands
  refine ⟨hnew.names, rfl, ?_, ?_⟩
  · intro k name shape hk
    have hentry := hnew.entry hk
    obtain ⟨s, hs, hnode, hshape⟩ := hentry.slot
    refine ⟨⟨s, _, hs, hshape, ?_, hentry.named, ?_⟩, hrun.findBuiltin hk, hrun.slot hk⟩
    · rw [hnode, hentry.type]
    · rw [hnode, hentry.written]
  · intro i s state location hs hshape
    cases hdefault : state.default? with
    | none =>
      have hgeneral := Inference.State.default?_eq_none_iff.mp hdefault
      rw [fallback_of_infer hs hshape, hdefault]
      exact ⟨⟨fun _ => hgeneral, fun _ => rfl⟩, fun hne => absurd hgeneral hne⟩
    | some scalar =>
      obtain ⟨k, hk, hfallback, hrender⟩ := hrun.fallback hs hshape hdefault
      have hcategory : state.category ≠ .general := by
        rw [Ne, ← Inference.State.default?_eq_none_iff, hdefault]
        simp
      refine ⟨?_, fun _ => ⟨k, scalar, hk, rfl, hfallback, hrender⟩⟩
      rw [hfallback]
      simp [hcategory]

/-- Gives the node of `u8` another type, renames the slot of `i32`, lists a slot that is not there
as a builtin type, and adds an inference variable for an integer. -/
def unsettle : List Command :=
  [.bindType ⟨0xFFFFFFF0⟩ ⟨12⟩, .setNode ⟨7⟩ ⟨0⟩, .addBuiltin ⟨3⟩ ⟨4⟩ ⟨400⟩,
    .register (.new ⟨50⟩ (.infer (.fresh .integral) .unknown))]

/-- Of a store whose ids start over among the builtin types, `i32` is still found after that, and
the inference variable has a fallback. -/
theorem unsettled_builtins :
    let c := (new { Config.standard with firstNode := ⟨0xFFFFFFF0⟩ }).run unsettle
    c.findBuiltin "i32" = .ok (some ⟨7⟩) ∧ ∃ k, k < 19 ∧ c.fallback ⟨19⟩ = .ok (some ⟨k⟩) := by
  intro c
  obtain ⟨-, hcount, hfound, hfallback⟩ :=
    builtins_stay { Config.standard with firstNode := ⟨0xFFFFFFF0⟩ } unsettle
  have hinfer : (c.slot? ⟨19⟩).map Slot.shape = some (.infer (.fresh .integral) .unknown) := by
    decide +kernel
  obtain ⟨s, hs, hshape⟩ := Option.map_eq_some_iff.mp hinfer
  obtain ⟨k, -, hk, -, hfalls, -⟩ := (hfallback _ _ _ _ hs hshape).2 (by decide)
  exact ⟨(hfound 7 "i32" _ rfl).2.1, k, hcount ▸ hk, hfalls⟩

end Context

end TypeStore
