import TypeStore.Proofs.Growth

/-!
# The history of a store

Slots are added and never taken away, and a slot stays what it was: it may be renamed, get more
bounds and absorb more nodes, and an inference variable may be narrowed, but nothing else about it
changes. A node that has a type may get another one and is never left without. `Develops` says so
of two stores; a command develops a store (`develops_exec`), and so does every run of commands
(`develops_run`), whether they succeed or fail.
-/

namespace TypeStore

/-! ## Slots -/

/-- The second slot is what the first one may become. Only the state of an inference variable may
change in its shape, and only if the slot was narrowed. -/
structure Slot.Develops (s : Slot) (narrowed : Prop) (t : Slot) : Prop where
  binding : t.binding = s.binding
  declaration : t.declaration = s.declaration
  shape : t.shape = s.shape ∨ (narrowed ∧ ∃ state state' location,
    s.shape = .infer state location ∧ t.shape = .infer state' location)
  bounds : s.bounds.toList <+: t.bounds.toList
  absorbed : ∀ n ∈ s.absorbed, n ∈ t.absorbed

namespace Slot.Develops

variable {s t u : Slot} {narrowed narrowed' : Prop}

theorem refl (s : Slot) : s.Develops narrowed s :=
  ⟨rfl, rfl, .inl rfl, List.prefix_refl _, fun _ hn => hn⟩

theorem mono (h : s.Develops narrowed t) (himp : narrowed → narrowed') :
    s.Develops narrowed' t where
  binding := h.binding
  declaration := h.declaration
  shape := h.shape.imp_right fun hshape => ⟨himp hshape.1, hshape.2⟩
  bounds := h.bounds
  absorbed := h.absorbed

theorem trans (h : s.Develops narrowed t) (h' : t.Develops narrowed u) :
    s.Develops narrowed u where
  binding := h'.binding.trans h.binding
  declaration := h'.declaration.trans h.declaration
  shape := by
    rcases h.shape with hst | ⟨hnarrowed, state, state', location, hs, ht⟩
    · rw [← hst]
      exact h'.shape
    · rcases h'.shape with htu | ⟨-, state₁, state₂, location', ht', hu⟩
      · exact .inr ⟨hnarrowed, state, state', location, hs, htu.trans ht⟩
      · -- narrowed twice, with the location kept both times
        rw [ht] at ht'
        cases ht'
        exact .inr ⟨hnarrowed, state, state₂, location, hs, hu⟩
  bounds := h.bounds.trans h'.bounds
  absorbed n hn := h'.absorbed n (h.absorbed n hn)

theorem kind (h : s.Develops narrowed t) : t.kind = s.kind := by
  rcases h.shape with hst | ⟨-, state, state', location, hs, ht⟩
  · simp [Slot.kind, hst]
  · simp [Slot.kind, hs, ht, Shape.kind]

/-- A slot that is no inference variable keeps its shape, narrowed or not. -/
theorem shape_eq (h : s.Develops narrowed t) (hs : s.isInfer = false) : t.shape = s.shape := by
  rcases h.shape with hst | ⟨-, state, state', location, hshape, -⟩
  · exact hst
  · simp [Slot.isInfer, hshape] at hs

end Slot.Develops

namespace Context

variable {c c' c'' : Context} {narrowed narrowed' : SlotId → Prop}

/-! ## Stores -/

/-- The second store is what the first one may become if slots are narrowed only where
`narrowed` says so. -/
structure Develops (c : Context) (narrowed : SlotId → Prop) (c' : Context) : Prop where
  size : c.size ≤ c'.size
  slot : ∀ {i s}, c.slot? i = some s → ∃ t, c'.slot? i = some t ∧ s.Develops (narrowed i) t
  typed : ∀ {n}, (∃ i, c.typeOf? n = some i) → ∃ i, c'.typeOf? n = some i
  builtins : c.builtins.slots <+: c'.builtins.slots

namespace Develops

theorem mono (h : c.Develops narrowed c') (himp : ∀ i, narrowed i → narrowed' i) :
    c.Develops narrowed' c' where
  size := h.size
  slot {i s} hs := by
    obtain ⟨t, ht, hst⟩ := h.slot hs
    exact ⟨t, ht, hst.mono (himp i)⟩
  typed := h.typed
  builtins := h.builtins

/-- The slots that were there are found as they were. -/
theorem of_slots (hslot : ∀ {i s}, c.slot? i = some s → c'.slot? i = some s)
    (hsize : c.size ≤ c'.size)
    (htyped : ∀ {n}, (∃ i, c.typeOf? n = some i) → ∃ i, c'.typeOf? n = some i)
    (hbuiltins : c.builtins.slots <+: c'.builtins.slots) : c.Develops narrowed c' where
  size := hsize
  slot {_ s} hs := ⟨s, hslot hs, .refl s⟩
  typed := htyped
  builtins := hbuiltins

theorem refl (c : Context) : c.Develops narrowed c :=
  .of_slots (fun hs => hs) (Nat.le_refl _) (fun hn => hn) (List.prefix_refl _)

theorem trans (h : c.Develops narrowed c') (h' : c'.Develops narrowed c'') :
    c.Develops narrowed c'' where
  size := Nat.le_trans h.size h'.size
  slot {i s} hs := by
    obtain ⟨t, ht, hst⟩ := h.slot hs
    obtain ⟨u, hu, htu⟩ := h'.slot ht
    exact ⟨u, hu, hst.trans htu⟩
  typed hn := h'.typed (h.typed hn)
  builtins := h.builtins.trans h'.builtins

/-! ## Changes -/

theorem sameTypes (h : c.SameTypes c') : c.Develops narrowed c' := by
  have hslot : ∀ i, c'.slot? i = c.slot? i := by
    intro i
    rw [slot?, h.arena]
    rfl
  have htype : ∀ n, c'.typeOf? n = c.typeOf? n := by
    intro n
    rw [typeOf?, h.types]
    rfl
  refine .of_slots ?_ ?_ ?_ ?_
  · intro i s hs
    rw [hslot, hs]
  · simp [Context.size, h.arena]
  · intro n hn
    rwa [htype]
  · rw [h.builtins]

theorem allocate (h : c.Develops narrowed c') (s : Slot) :
    c.Develops narrowed (c'.allocate s).2 :=
  h.trans (.of_slots slot?_allocate_of_some (by simp) (fun hn => hn) (List.prefix_refl _))

theorem bindType (h : c.Develops narrowed c') (n : NodeId) (i : SlotId) :
    c.Develops narrowed (c'.bindType n i) := by
  refine h.trans (.of_slots (fun hs => hs) (Nat.le_refl _) ?_ (List.prefix_refl _))
  intro m hm
  rw [typeOf?_bindType]
  by_cases hnm : n = m
  · exact ⟨i, if_pos hnm⟩
  · rwa [if_neg hnm]

theorem addBuiltin (c : Context) (n nameNode : NodeId) (i : SlotId) :
    c.Develops narrowed (c.addBuiltin n nameNode i) := by
  have hbind : c.Develops narrowed (c.bindType n i) := (refl c).bindType n i
  exact .of_slots (fun hs => hs) (Nat.le_refl _) hbind.typed (List.prefix_append _ _)

theorem modifySlot {i : SlotId} {f : Slot → Slot} (hc : c.modifySlot i f = .ok c')
    (hf : ∀ s, c.slot? i = some s → s.Develops (narrowed i) (f s)) : c.Develops narrowed c' := by
  rw [modifySlot_eq_ok hc]
  constructor
  · simp [Context.size]
  · intro j s hs
    rw [slot?_modify]
    by_cases hij : i = j
    · subst hij
      rw [if_pos rfl, hs]
      exact ⟨f s, rfl, hf s hs⟩
    · rw [if_neg hij]
      exact ⟨s, hs, .refl s⟩
  · intro n hn
    exact hn
  · exact List.prefix_refl _

theorem narrow {i met : SlotId} (hi : narrowed i) (hc : c.narrow i met = .ok c') :
    c.Develops narrowed c' := by
  obtain ⟨s, state, location, t, hs, hshape, -, hmodify⟩ := narrow_eq_ok hc
  refine .modifySlot hmodify ?_
  intro s' hs'
  rw [hs] at hs'
  cases hs'
  exact ⟨rfl, rfl, .inr ⟨hi, state, _, location, hshape, rfl⟩, List.prefix_refl _,
    fun _ hn => hn⟩

theorem resolve (c : Context) (i : SlotId) : c.Develops narrowed (c.resolve i).2 := by
  have h := growsTo_resolve c i
  refine .of_slots h.slot? ?_ ?_ ?_
  · exact h.arena.length_le
  · rintro n ⟨j, hj⟩
    exact ⟨j, h.types hj⟩
  · have hbuiltins : (c.resolve i).2.builtins = c.builtins := by
      unfold Context.resolve
      split
      · rfl
      · rfl
      · split <;> rfl
    rw [hbuiltins]

/-- A copy adds slots and gives types, and one that is abandoned adds slots only. -/
theorem finish {α : Type} {x : Copying α}
    (steps : CopySteps c ((x.after (.start c)).commit c)) :
    c.Develops narrowed (c.finish x).2 := by
  have hsize := CopySteps.size_le steps
  rcases finish_eq c x with ⟨a, d, hx, rfl⟩ | ⟨f, d, hx, rfl⟩
  · rw [hx]
    exact .of_slots (CopySteps.slot? steps) hsize (CopySteps.typed steps) (List.prefix_refl _)
  · rw [hx]
    exact .of_slots (CopySteps.slot? steps) hsize (fun hn => hn) (List.prefix_refl _)

end Develops

/-! ## Commands and runs -/

/-- One command. Only `narrow` changes the shape of a slot, and only of the slot it is given. -/
theorem develops_exec (c : Context) (command : Command) :
    c.Develops (fun i => ∃ met, command = .narrow i met) (c.exec command).2 := by
  cases command with
  | allocate s => exact (Develops.refl c).allocate s
  | register s => exact ((Develops.refl c).allocate s).bindType _ _
  | bindType node slot => exact (Develops.refl c).bindType node slot
  | bindSite site slot => exact (Develops.refl c).bindType site.node slot
  | addBuiltin node nameNode slot => exact .addBuiltin c node nameNode slot
  | setNode slot node =>
    refine attempt_keeps (.refl c) fun c' hc => .modifySlot hc fun s _ => ?_
    exact ⟨rfl, rfl, .inl rfl, List.prefix_refl _, fun _ hn => hn⟩
  | addBound slot b =>
    refine attempt_keeps (.refl c) fun c' hc => .modifySlot hc fun s _ => ?_
    exact ⟨rfl, rfl, .inl rfl, s.bounds.prefix_add b, fun _ hn => hn⟩
  | addBounds slot bs =>
    refine attempt_keeps (.refl c) fun c' hc => .modifySlot hc fun s _ => ?_
    exact ⟨rfl, rfl, .inl rfl, s.bounds.prefix_addAll bs, fun _ hn => hn⟩
  | absorb slot node =>
    refine attempt_keeps (.refl c) fun c' hc => .modifySlot hc fun s _ => ?_
    exact ⟨rfl, rfl, .inl rfl, List.prefix_refl _,
      fun _ hn => NodeSet.mem_insert.mpr (.inr hn)⟩
  | narrow slot met => exact attempt_keeps (.refl c) fun c' hc => .narrow ⟨met, rfl⟩ hc
  | copy slot => exact .finish (steps_copy c slot)
  | copyVar v => exact .finish (steps_copyVar c v)
  | resolve slot => exact .resolve c slot
  | mapPlaceholder placeholder node =>
    exact .of_slots (fun hs => hs) (Nat.le_refl _) (fun hn => hn) (List.prefix_refl _)
  | unmapPlaceholder placeholder =>
    exact .of_slots (fun hs => hs) (Nat.le_refl _) (fun hn => hn) (List.prefix_refl _)
  | _ => exact .sameTypes (sameTypes_exec rfl)

/-- Every run, whatever its commands answer. -/
theorem develops_run (c : Context) (commands : List Command) :
    c.Develops (fun i => ∃ met, Command.narrow i met ∈ commands) (c.run commands) := by
  induction commands generalizing c with
  | nil => exact .refl c
  | cons command rest ih =>
    refine ((develops_exec c command).mono ?_).trans ((ih (c.exec command).2).mono ?_)
    · rintro i ⟨met, rfl⟩
      exact ⟨met, List.mem_cons_self⟩
    · rintro i ⟨met, hmet⟩
      exact ⟨met, List.mem_cons_of_mem _ hmet⟩

theorem varFor_eq_ok {n : NodeId} {v : TypeVar} (h : c.varFor n = .ok v) :
    v.node = n ∧ ∃ i, c.typeOf? n = some i := by
  unfold varFor at h
  cases htype : c.typeOf n with
  | error f =>
    rw [htype] at h
    cases h
  | ok i =>
    rw [htype] at h
    cases h
    exact ⟨rfl, i, typeOf_eq_ok_iff.mp htype⟩

/-- From any store on, and however long a session goes on, there are no fewer slots; a slot keeps
its kind, its binding, its declaration and its shape, up to the state of an inference variable
that was narrowed; bounds and absorbed nodes are only added; and a node that has a type goes on
having one, so that a variable for it always finds a type. -/
theorem run_only_adds (c : Context) (commands : List Command) :
    c.size ≤ (c.run commands).size ∧
      (∀ i s, c.slot? i = some s → ∃ t, (c.run commands).slot? i = some t ∧
        t.kind = s.kind ∧ t.binding = s.binding ∧ t.declaration = s.declaration ∧
        (t.shape = s.shape ∨ ∃ met state state' location, Command.narrow i met ∈ commands ∧
          s.shape = .infer state location ∧ t.shape = .infer state' location) ∧
        s.bounds.toList <+: t.bounds.toList ∧
        (s.bounds.toList.map Bound.id).Nodup ∧ (t.bounds.toList.map Bound.id).Nodup ∧
        ∀ n ∈ s.absorbed, n ∈ t.absorbed) ∧
      (∀ n i, c.typeOf? n = some i → ∃ j, (c.run commands).typeOf? n = some j) ∧
      ∀ n v, c.varFor n = .ok v → ∃ j, (c.run commands).typeOf v.node = .ok j := by
  have h := develops_run c commands
  refine ⟨h.size, ?_, ?_, ?_⟩
  · intro i s hs
    obtain ⟨t, ht, hst⟩ := h.slot hs
    refine ⟨t, ht, hst.kind, hst.binding, hst.declaration, ?_, hst.bounds, s.bounds.distinct,
      t.bounds.distinct, hst.absorbed⟩
    rcases hst.shape with hshape | ⟨⟨met, hmet⟩, state, state', location, hs', ht'⟩
    · exact .inl hshape
    · exact .inr ⟨met, state, state', location, hmet, hs', ht'⟩
  · intro n i hn
    exact h.typed ⟨i, hn⟩
  · intro n v hv
    obtain ⟨rfl, htyped⟩ := varFor_eq_ok hv
    obtain ⟨j, hj⟩ := h.typed htyped
    exact ⟨j, typeOf_eq_ok_iff.mpr hj⟩

/-- Gives the inner tuple another type, narrows the inference variable inside it, and makes a copy
that fails and one that does not. -/
def rework : List Command :=
  [.bindType ⟨46⟩ ⟨7⟩, .narrow ⟨19⟩ ⟨7⟩, .copy ⟨400⟩, .copy ⟨21⟩]

/-- Through all of that the slot of the inner tuple stays a tuple, and its node has a type. -/
theorem nestedTuples_reworked :
    (∃ t, (nestedTuples.run rework).slot? ⟨20⟩ = some t ∧ t.shape = .tuple [⟨⟨45⟩⟩]) ∧
      ∃ j, (nestedTuples.run rework).typeOf ⟨46⟩ = .ok j := by
  obtain ⟨-, hslots, -, hvars⟩ := run_only_adds nestedTuples rework
  have htuple : (nestedTuples.slot? ⟨20⟩).map Slot.shape = some (.tuple [⟨⟨45⟩⟩]) := by
    decide +kernel
  have hvar : nestedTuples.varFor ⟨46⟩ = .ok ⟨⟨46⟩⟩ := by rfl
  obtain ⟨s, hs, hshape⟩ := Option.map_eq_some_iff.mp htuple
  obtain ⟨t, ht, -, -, -, hkept, -⟩ := hslots _ _ hs
  refine ⟨⟨t, ht, ?_⟩, hvars _ _ hvar⟩
  rcases hkept with hsame | ⟨met, state, state', location, -, hinfer, -⟩
  · rw [hsame, hshape]
  · rw [hshape] at hinfer
    cases hinfer

end Context

end TypeStore
