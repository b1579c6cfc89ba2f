import TypeStore.Proofs.Session

/-!
# Records that are written once

The path of a node, the adjustments of an expression, the record of an enum item and the parent of
an item are kept as first written. What happens to a second value differs: adjustments and enum
items are refused, a parent is passed over, and a path is refused only if it is longer than the one
on record and has other names. In no case does anything change (`exec_recordPath_of_some` and its
like), and no other command touches these tables, so what is on record stands (`stands_run`).
-/

namespace TypeStore

/-! ## Tables -/

/-- Every entry of the first table is one of the second. -/
def NodeMap.Within {α : Type} (m m' : NodeMap α) : Prop :=
  ∀ (n : NodeId) (a : α), m[n]? = some a → m'[n]? = some a

namespace NodeMap.Within

variable {α : Type} {m m' m'' : NodeMap α}

theorem refl (m : NodeMap α) : NodeMap.Within m m := fun _ _ h => h

theorem trans (h : NodeMap.Within m m') (h' : NodeMap.Within m' m'') : NodeMap.Within m m'' :=
  fun n a hn => h' n a (h n a hn)

/-- An entry for a node that had none. -/
theorem insert {n : NodeId} (hn : m[n]? = none) (a : α) : NodeMap.Within m (m.insert n a) := by
  intro k b hk
  rw [getElem?_insert_eq, if_neg]
  · exact hk
  · rintro rfl
    rw [hn] at hk
    cases hk

end NodeMap.Within

namespace Context

variable {c c' c'' : Context}

/-! ## The four writers -/

section Writers

variable (c) (n parent : NodeId) (path : Path) (steps : List Adjustment) (enum : EnumRecord)
  (item : EnumItemRecord)

theorem exec_recordPath_of_none (h : c.path? n = none) :
    c.exec (.recordPath n path) = done { c with facts := { c.facts with
      paths := c.facts.paths.insert n path } } := by
  show c.attempt (c.recordPath n path) = _
  unfold recordPath
  rw [show c.facts.paths[n]? = none from h]
  rfl

theorem exec_recordPath_of_some {kept : Path} (h : c.path? n = some kept) :
    c.exec (.recordPath n path)
      = (if acceptsPath kept path then .ok .done
          else .error (.error (.pathConflict n kept.text path.text)), c) := by
  show c.attempt (c.recordPath n path) = _
  unfold recordPath
  rw [show c.facts.paths[n]? = some kept from h]
  dsimp only
  split <;> rfl

theorem exec_recordAdjustments_of_none (h : c.adjustments? n = none) :
    c.exec (.recordAdjustments n steps) = done { c with facts := { c.facts with
      adjustments := c.facts.adjustments.insert n steps } } := by
  show c.attempt (c.recordAdjustments n steps) = _
  unfold recordAdjustments
  rw [show c.facts.adjustments[n]? = none from h]
  rfl

theorem exec_recordAdjustments_of_some {kept : List Adjustment}
    (h : c.adjustments? n = some kept) :
    c.exec (.recordAdjustments n steps) = (.error (.error (.duplicateAdjustments n)), c) := by
  show c.attempt (c.recordAdjustments n steps) = _
  unfold recordAdjustments
  rw [show c.facts.adjustments[n]? = some kept from h]
  rfl

theorem exec_addEnumItem_of_none (h : c.enumItem? item.node = none) :
    c.exec (.addEnumItem enum item) = done { c with items := { c.items with
      enumItems := c.items.enumItems.insert item.node (enum, item) } } := by
  show c.attempt (c.addEnumItem enum item) = _
  unfold addEnumItem
  rw [h]
  rfl

theorem exec_addEnumItem_of_some {kept : EnumRecord × EnumItemRecord}
    (h : c.enumItem? item.node = some kept) :
    c.exec (.addEnumItem enum item) = (.error (.error (.duplicateEnumItem item.node)), c) := by
  show c.attempt (c.addEnumItem enum item) = _
  unfold addEnumItem
  rw [h]
  rfl

theorem exec_setParent_of_none (h : c.parent? n = none) :
    c.exec (.setParent n parent) = done { c with items := { c.items with
      parents := c.items.parents.insert n parent } } := by
  show done (c.setParent n parent) = _
  unfold setParent
  rw [h]

theorem exec_setParent_of_some {kept : NodeId} (h : c.parent? n = some kept) :
    c.exec (.setParent n parent) = (.ok .done, c) := by
  show done (c.setParent n parent) = _
  unfold setParent
  rw [h]
  rfl

end Writers

/-! ## What stands -/

/-- Whatever the first store has on record of the four kinds, the second one has just so. -/
structure Stands (c c' : Context) : Prop where
  paths : NodeMap.Within c.facts.paths c'.facts.paths
  adjustments : NodeMap.Within c.facts.adjustments c'.facts.adjustments
  enumItems : NodeMap.Within c.items.enumItems c'.items.enumItems
  parents : NodeMap.Within c.items.parents c'.items.parents

namespace Stands

theorem refl (c : Context) : c.Stands c := ⟨.refl _, .refl _, .refl _, .refl _⟩

theorem trans (h : c.Stands c') (h' : c'.Stands c'') : c.Stands c'' :=
  ⟨h.paths.trans h'.paths, h.adjustments.trans h'.adjustments, h.enumItems.trans h'.enumItems,
    h.parents.trans h'.parents⟩

theorem of_eq (hpaths : c'.facts.paths = c.facts.paths)
    (hadjustments : c'.facts.adjustments = c.facts.adjustments)
    (henumItems : c'.items.enumItems = c.items.enumItems)
    (hparents : c'.items.parents = c.items.parents) : c.Stands c' where
  paths := hpaths ▸ .refl _
  adjustments := hadjustments ▸ .refl _
  enumItems := henumItems ▸ .refl _
  parents := hparents ▸ .refl _

theorem modifySlot {i : SlotId} {f : Slot → Slot} (h : c.modifySlot i f = .ok c') :
    c.Stands c' := by
  rw [modifySlot_eq_ok h]
  exact .of_eq rfl rfl rfl rfl

/-- A copy writes to the arena and to the table of types. -/
theorem finish {α : Type} (x : Copying α) : c.Stands (c.finish x).2 := by
  rcases finish_eq c x with ⟨a, d, hfinish, -⟩ | ⟨f, d, hfinish, -⟩
  · rw [hfinish]
    exact .of_eq rfl rfl rfl rfl
  · rw [hfinish]
    exact .of_eq rfl rfl rfl rfl

theorem resolve (c : Context) (i : SlotId) : c.Stands (c.resolve i).2 := by
  unfold Context.resolve
  split
  · exact .refl c
  · exact .refl c
  · split
    · exact .refl c
    · exact .of_eq rfl rfl rfl rfl

theorem recordPath (c : Context) (n : NodeId) (path : Path) :
    c.Stands (c.exec (.recordPath n path)).2 := by
  cases h : c.path? n with
  | none =>
    rw [exec_recordPath_of_none c n path h]
    exact ⟨.insert h path, .refl _, .refl _, .refl _⟩
  | some kept =>
    rw [exec_recordPath_of_some c n path h]
    exact .refl c

theorem recordAdjustments (c : Context) (n : NodeId) (steps : List Adjustment) :
    c.Stands (c.exec (.recordAdjustments n steps)).2 := by
  cases h : c.adjustments? n with
  | none =>
    rw [exec_recordAdjustments_of_none c n steps h]
    exact ⟨.refl _, .insert h steps, .refl _, .refl _⟩
  | some kept =>
    rw [exec_recordAdjustments_of_some c n steps h]
    exact .refl c

theorem addEnumItem (c : Context) (enum : EnumRecord) (item : EnumItemRecord) :
    c.Stands (c.exec (.addEnumItem enum item)).2 := by
  cases h : c.enumItem? item.node with
  | none =>
    rw [exec_addEnumItem_of_none c enum item h]
    exact ⟨.refl _, .refl _, .insert h (enum, item), .refl _⟩
  | some kept =>
    rw [exec_addEnumItem_of_some c enum item h]
    exact .refl c

theorem setParent (c : Context) (n parent : NodeId) :
    c.Stands (c.exec (.setParent n parent)).2 := by
  cases h : c.parent? n with
  | none =>
    rw [exec_setParent_of_none c n parent h]
    exact ⟨.refl _, .refl _, .refl _, .insert h parent⟩
  | some kept =>
    rw [exec_setParent_of_some c n parent h]
    exact .refl c

end Stands

theorem stands_exec (c : Context) (command : Command) : c.Stands (c.exec command).2 := by
  cases command with
  | recordPath node path => exact .recordPath c node path
  | recordAdjustments node steps => exact .recordAdjustments c node steps
  | addEnumItem parent item => exact .addEnumItem c parent item
  | setParent node parent => exact .setParent c node parent
  | setNode slot node => exact attempt_keeps (.refl c) fun c' hc => .modifySlot hc
  | addBound slot b => exact attempt_keeps (.refl c) fun c' hc => .modifySlot hc
  | addBounds slot bs => exact attempt_keeps (.refl c) fun c' hc => .modifySlot hc
  | absorb slot node => exact attempt_keeps (.refl c) fun c' hc => .modifySlot hc
  | narrow slot met =>
    refine attempt_keeps (.refl c) fun c' hc => ?_
    obtain ⟨s, state, location, t, -, -, -, hmodify⟩ := narrow_eq_ok hc
    exact .modifySlot hmodify
  | copy slot =>
    show c.Stands (c.copy slot).2
    exact .finish _
  | copyVar v =>
    show c.Stands (c.copyVar v).2
    exact .finish _
  | resolve slot => exact .resolve c slot
  -- the other commands write to other tables, or to none
  | _ => exact .of_eq rfl rfl rfl rfl

theorem stands_run (c : Context) (commands : List Command) : c.Stands (c.run commands) := by
  induction commands generalizing c with
  | nil => exact .refl c
  | cons command rest ih => exact (stands_exec c command).trans (ih (c.exec command).2)

/-! ## Writing once -/

def Fails (c : Context) (command : Command) : Prop := ∃ f, (c.exec command).1 = .error f

/-- The command writes a value where none is on record, and else changes nothing, whether it
fails or not. -/
structure WritesOnce {α : Type} (c : Context) (command : Command) (lookup : Context → Option α)
    (value : α) : Prop where
  written : lookup c = none →
    (c.exec command).1 = .ok .done ∧ lookup (c.exec command).2 = some value
  kept : ∀ {a}, lookup c = some a → (c.exec command).2 = c

theorem acceptsPath_eq_false_iff {kept path : Path} :
    acceptsPath kept path = false ↔ kept.names ≠ path.names ∧ kept.length < path.length := by
  simp [acceptsPath, Path.sameNames]

theorem fails_recordPath_iff {n : NodeId} {path : Path} :
    c.Fails (.recordPath n path) ↔
      ∃ kept, c.path? n = some kept ∧ kept.names ≠ path.names ∧ kept.length < path.length := by
  cases h : c.path? n with
  | none => simp [Fails, exec_recordPath_of_none c n path h, done]
  | some kept =>
    simp only [Fails, exec_recordPath_of_some c n path h, ← acceptsPath_eq_false_iff]
    cases haccepts : acceptsPath kept path with
    | true => simp [haccepts]
    | false => simp [haccepts]

theorem fails_recordAdjustments_iff {n : NodeId} {steps : List Adjustment} :
    c.Fails (.recordAdjustments n steps) ↔ ∃ kept, c.adjustments? n = some kept := by
  cases h : c.adjustments? n with
  | none => simp [Fails, exec_recordAdjustments_of_none c n steps h, done]
  | some kept => simp [Fails, exec_recordAdjustments_of_some c n steps h]

theorem fails_addEnumItem_iff {enum : EnumRecord} {item : EnumItemRecord} :
    c.Fails (.addEnumItem enum item) ↔ ∃ kept, c.enumItem? item.node = some kept := by
  cases h : c.enumItem? item.node with
  | none => simp [Fails, exec_addEnumItem_of_none c enum item h, done]
  | some kept => simp [Fails, exec_addEnumItem_of_some c enum item h]

theorem not_fails_setParent {n parent : NodeId} : ¬ c.Fails (.setParent n parent) := by
  rintro ⟨f, hf⟩
  cases hf

theorem writesOnce_recordPath (c : Context) (n : NodeId) (path : Path) :
    c.WritesOnce (.recordPath n path) (fun c => c.path? n) path where
  written h := by
    rw [exec_recordPath_of_none c n path h]
    exact ⟨rfl, by simp [done, path?]⟩
  kept h := by rw [exec_recordPath_of_some c n path h]

theorem writesOnce_recordAdjustments (c : Context) (n : NodeId) (steps : List Adjustment) :
    c.WritesOnce (.recordAdjustments n steps) (fun c => c.adjustments? n) steps where
  written h := by
    rw [exec_recordAdjustments_of_none c n steps h]
    exact ⟨rfl, by simp [done, adjustments?]⟩
  kept h := by rw [exec_recordAdjustments_of_some c n steps h]

theorem writesOnce_addEnumItem (c : Context) (enum : EnumRecord) (item : EnumItemRecord) :
    c.WritesOnce (.addEnumItem enum item) (fun c => c.enumItem? item.node) (enum, item) where
  written h := by
    rw [exec_addEnumItem_of_none c enum item h]
    exact ⟨rfl, by simp [done, enumItem?]⟩
  kept h := by rw [exec_addEnumItem_of_some c enum item h]

theorem writesOnce_setParent (c : Context) (n parent : NodeId) :
    c.WritesOnce (.setParent n parent) (fun c => c.parent? n) parent where
  written h := by
    rw [exec_setParent_of_none c n parent h]
    exact ⟨rfl, by simp [done, parent?]⟩
  kept h := by rw [exec_setParent_of_some c n parent h]

/-- From any store on, what is on record as the path of a node, the adjustments of an expression,
an enum item or a parent stays so through every run. Each of them is written if there was none;
a second value changes nothing, and which of these attempts fail depends on the table. -/
theorem first_record_stands (c : Context) :
    (∀ commands n,
      (∀ path, c.path? n = some path → (c.run commands).path? n = some path) ∧
      (∀ steps, c.adjustments? n = some steps →
        (c.run commands).adjustments? n = some steps) ∧
      (∀ entry, c.enumItem? n = some entry → (c.run commands).enumItem? n = some entry) ∧
      ∀ parent, c.parent? n = some parent → (c.run commands).parent? n = some parent) ∧
    (∀ n path, c.WritesOnce (.recordPath n path) (fun c => c.path? n) path ∧
      (c.Fails (.recordPath n path) ↔
        ∃ kept, c.path? n = some kept ∧ kept.names ≠ path.names ∧ kept.length < path.length)) ∧
    (∀ n steps, c.WritesOnce (.recordAdjustments n steps) (fun c => c.adjustments? n) steps ∧
      (c.Fails (.recordAdjustments n steps) ↔ ∃ kept, c.adjustments? n = some kept)) ∧
    (∀ enum item,
      c.WritesOnce (.addEnumItem enum item) (fun c => c.enumItem? item.node) (enum, item) ∧
      (c.Fails (.addEnumItem enum item) ↔ ∃ kept, c.enumItem? item.node = some kept)) ∧
    ∀ n parent, c.WritesOnce (.setParent n parent) (fun c => c.parent? n) parent ∧
      ¬ c.Fails (.setParent n parent) := by
  refine ⟨?_, ?_, ?_, ?_, ?_⟩
  · intro commands n
    have h := stands_run c commands
    exact ⟨h.paths n, h.adjustments n, h.enumItems n, h.parents n⟩
  · intro n path
    exact ⟨writesOnce_recordPath c n path, fails_recordPath_iff⟩
  · intro n steps
    exact ⟨writesOnce_recordAdjustments c n steps, fails_recordAdjustments_iff⟩
  · intro enum item
    exact ⟨writesOnce_addEnumItem c enum item, fails_addEnumItem_iff⟩
  · intro n parent
    exact ⟨writesOnce_setParent c n parent, not_fails_setParent⟩

def shortPath : Path := .single ⟨51⟩ "pair"

def longPath : Path := (Path.single ⟨52⟩ "model").append (.single ⟨53⟩ "pair")

/-- A node with a short path refuses the long one, and still has the short one after a run that
tries other paths for it. -/
theorem longPath_refused :
    let c := ((new .standard).exec (.recordPath ⟨50⟩ shortPath)).2
    c.Fails (.recordPath ⟨50⟩ longPath) ∧ (c.exec (.recordPath ⟨50⟩ longPath)).2 = c ∧
      (c.run [.recordPath ⟨50⟩ longPath, .recordPath ⟨50⟩ (.single ⟨54⟩ "pair")]).path? ⟨50⟩
        = some shortPath := by
  intro c
  have hnone : (new .standard).path? ⟨50⟩ = none := by decide +kernel
  obtain ⟨-, hwrites, -⟩ := first_record_stands (new .standard)
  have hshort : c.path? ⟨50⟩ = some shortPath := ((hwrites _ _).1.written hnone).2
  obtain ⟨hruns, hwrites', -⟩ := first_record_stands c
  refine ⟨?_, (hwrites' _ _).1.kept hshort, (hruns _ _).1 _ hshort⟩
  exact (hwrites' _ _).2.mpr ⟨shortPath, hshort, by decide, by decide⟩

end Context

end TypeStore
