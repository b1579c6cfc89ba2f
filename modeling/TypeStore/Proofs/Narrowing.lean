import TypeStore.Proofs.Builtins

/-!
# Narrowing

An inference variable meets types, one after the other. Number types narrow it, and the last of
them decides what it falls back to, whatever state the variable was in before. The whole state is
not decided by that type alone: a pointer-sized integer has neither sign nor width, so those stay
with the last number type that has them. `Narrowed` says this of a state and a list of shapes. One
more shape keeps it (`Narrowed.meetShape`), so it holds of every list (`narrowed_foldl`).

In a session, commands of all sorts stand between two meetings. The state of a variable does not
notice them (`infer_exec`), and after any run it is what the shapes met in that run make of it.
-/

namespace TypeStore

/-! ## What a number type tells -/

namespace Scalar

/-- The category of the variables that may become a number type. -/
def category : Scalar → Inference.Category
  | float _ => .float
  | int _ | uint _ | usize | isize => .integral

/-- The sign of a number type; pointer-sized integers tell none. -/
def sign? : Scalar → Option Inference.Sign
  | int _ | float _ => some .signed
  | uint _ => some .unsigned
  | usize | isize => none

/-- The width of a number type; pointer-sized integers tell none. -/
def width? : Scalar → Option Width
  | int w | uint w => some w
  | float w => some w.toWidth
  | usize | isize => none

/-- Whether a number type has a width, and so a sign. -/
def isSized (k : Scalar) : Bool := k.width?.isSome

end Scalar

namespace Inference

/-- The last number type among some shapes. -/
def lastScalar? (shapes : List Shape) : Option Scalar :=
  (shapes.filterMap Shape.scalar?).getLast?

/-- The last number type with a width among some shapes. -/
def lastSized? (shapes : List Shape) : Option Scalar :=
  ((shapes.filterMap Shape.scalar?).filter Scalar.isSized).getLast?

namespace State

/-- What is left of a state when the variable has met some shapes. -/
structure Narrowed (st : State) (shapes : List Shape) (st' : State) : Prop where
  last : ∀ k, lastScalar? shapes = some k →
    st'.default?.map Scalar.name = some k.name ∧ st'.category = k.category ∧
      st'.hint.kind = k.kind
  sized : ∀ k, lastSized? shapes = some k → st'.hint.sign = k.sign? ∧ st'.hint.size = k.width?
  unsized : lastSized? shapes = none →
    st'.hint.sign = st.hint.sign ∧ st'.hint.size = st.hint.size
  untold : lastScalar? shapes = none → st' = st

variable {st st' : State} {shapes : List Shape}

/-! ## One meeting -/

/-- A variable that has just met a number type falls back to it: sizes that an earlier type left
behind are overwritten or not looked at. -/
theorem default?_meet (st : State) (k : Scalar) : (st.meet k).default? = some k := by
  cases k with
  | float w => cases w <;> rfl
  | _ => rfl

theorem category_meet (st : State) (k : Scalar) : (st.meet k).category = k.category := by
  cases k <;> rfl

theorem kind_meet (st : State) (k : Scalar) : (st.meet k).hint.kind = k.kind := by
  cases k <;> rfl

theorem hint_meet (st : State) (k : Scalar) :
    (st.meet k).hint.sign = (if k.isSized then k.sign? else st.hint.sign) ∧
      (st.meet k).hint.size = (if k.isSized then k.width? else st.hint.size) := by
  cases k <;> simp [meet, Scalar.isSized, Scalar.sign?, Scalar.width?]

theorem lastScalar?_concat {shape : Shape} {k : Scalar} (hk : shape.scalar? = some k) :
    lastScalar? (shapes ++ [shape]) = some k := by
  simp [lastScalar?, hk]

theorem lastSized?_concat {shape : Shape} {k : Scalar} (hk : shape.scalar? = some k) :
    lastSized? (shapes ++ [shape]) = if k.isSized then some k else lastSized? shapes := by
  by_cases hwidth : k.isSized = true <;> simp [lastSized?, hk, hwidth]

theorem Narrowed.refl (st : State) : st.Narrowed [] st where
  last _ hk := by cases hk
  sized _ hk := by cases hk
  unsized _ := ⟨rfl, rfl⟩
  untold _ := rfl

/-- A number type at the end of the list takes over all but sign and width, and these too if it
has them. -/
theorem Narrowed.meet (h : st.Narrowed shapes st') {shape : Shape} {k : Scalar}
    (hk : shape.scalar? = some k) : st.Narrowed (shapes ++ [shape]) (st'.meet k) := by
  have hlast : lastScalar? (shapes ++ [shape]) = some k := lastScalar?_concat hk
  have hsized : lastSized? (shapes ++ [shape])
      = if k.isSized then some k else lastSized? shapes := lastSized?_concat hk
  obtain ⟨hsign, hsize⟩ := hint_meet st' k
  constructor
  · intro k' hk'
    rw [hlast] at hk'
    cases hk'
    rw [default?_meet, category_meet, kind_meet]
    exact ⟨rfl, rfl, rfl⟩
  · intro k' hk'
    rw [hsign, hsize]
    by_cases hwidth : k.isSized = true
    · rw [hsized, if_pos hwidth] at hk'
      cases hk'
      simp [hwidth]
    · rw [hsized, if_neg hwidth] at hk'
      simpa [hwidth] using h.sized k' hk'
  · intro hnone
    rw [hsign, hsize]
    by_cases hwidth : k.isSized = true
    · rw [hsized, if_pos hwidth] at hnone
      cases hnone
    · rw [hsized, if_neg hwidth] at hnone
      simpa [hwidth] using h.unsized hnone
  · intro hnone
    rw [hlast] at hnone
    cases hnone

/-- Any other type changes neither the state nor what the list says. -/
theorem Narrowed.meetShape (h : st.Narrowed shapes st') (shape : Shape) :
    st.Narrowed (shapes ++ [shape]) (st'.meetShape shape) := by
  unfold State.meetShape
  cases hk : shape.scalar? with
  | some k => exact h.meet hk
  | none =>
    have hlast : lastScalar? (shapes ++ [shape]) = lastScalar? shapes := by
      simp [lastScalar?, hk]
    have hsized : lastSized? (shapes ++ [shape]) = lastSized? shapes := by
      simp [lastSized?, hk]
    exact ⟨hlast ▸ h.last, hsized ▸ h.sized, hsized ▸ h.unsized, hlast ▸ h.untold⟩

/-! ## Any number of meetings -/

theorem Narrowed.foldl (h : st.Narrowed shapes st') (more : List Shape) :
    st.Narrowed (shapes ++ more) (more.foldl State.meetShape st') := by
  induction more generalizing shapes st' with
  | nil => simpa using h
  | cons shape more ih => simpa using ih (h.meetShape shape)

theorem narrowed_foldl (st : State) (shapes : List Shape) :
    st.Narrowed shapes (shapes.foldl meetShape st) :=
  (Narrowed.refl st).foldl shapes

end State

end Inference

namespace Context

open Inference (State)

variable {c c' : Context} {i met : SlotId} {s : Slot} {st : State} {location : Location}

/-! ## Variables of a store -/

/-- The shape that the inference variable at a slot meets when a command is carried out, if it
meets one. A meeting that fails does not count. -/
def metIn (c : Context) (i : SlotId) : Command → Option Shape
  | .narrow j met =>
    if j = i ∧ (c.narrow i met).isOk = true then (c.slot? met).map Slot.shape else none
  | _ => none

/-- The shapes that the inference variable at a slot meets in the course of a run. -/
def metDuring (c : Context) (i : SlotId) : List Command → List Shape
  | [] => []
  | command :: rest => (c.metIn i command).toList ++ (c.exec command).2.metDuring i rest

/-- The second store is the first one after the variable at a slot has met a shape: its state is
another, and nothing else is. -/
structure Meets (c : Context) (i : SlotId) (shape : Shape) (c' : Context) : Prop where
  state : ∃ s st location, c.slot? i = some s ∧ s.shape = .infer st location ∧
    c'.slot? i = some { s with shape := .infer (st.meetShape shape) location }
  others : ∀ j, j ≠ i → c'.slot? j = c.slot? j
  size : c'.size = c.size
  rest : c = { c' with arena := c.arena }

theorem meets_of_narrow (h : c.narrow i met = .ok c') :
    ∃ t, c.slot? met = some t ∧ c.Meets i t.shape c' := by
  obtain ⟨s, st, location, t, hs, hshape, ht, hmodify⟩ := narrow_eq_ok h
  obtain rfl := modifySlot_eq_ok hmodify
  refine ⟨t, ht, ⟨s, st, location, hs, hshape, ?_⟩, ?_, ?_, rfl⟩
  · simp [slot?_modify, hs]
  · intro j hj
    rw [slot?_modify, if_neg (Ne.symm hj)]
  · simp [Context.size]

theorem metIn_narrow (h : c.narrow i met = .ok c') :
    c.metIn i (.narrow i met) = (c.slot? met).map Slot.shape := by
  simp [metIn, h, Except.isOk, Except.toBool]

theorem metIn_eq_some {command : Command} {shape : Shape} (h : c.metIn i command = some shape) :
    ∃ met c' t, command = .narrow i met ∧ c.narrow i met = .ok c' ∧ c.slot? met = some t ∧
      t.shape = shape := by
  cases command with
  | narrow j met =>
    simp only [metIn, Option.ite_none_right_eq_some, Option.map_eq_some_iff] at h
    obtain ⟨⟨rfl, hok⟩, t, ht, hshape⟩ := h
    cases hnarrow : c.narrow j met with
    | ok c' => exact ⟨met, c', t, rfl, hnarrow, ht, hshape⟩
    | error f =>
      rw [hnarrow] at hok
      cases hok
  | _ => cases h

/-- A command that lets the variable meet nothing leaves its shape alone. -/
theorem shape_exec_of_metIn_eq_none {command : Command} (hs : c.slot? i = some s)
    (hmet : c.metIn i command = none) :
    ∃ t, (c.exec command).2.slot? i = some t ∧ t.shape = s.shape := by
  obtain ⟨t, ht, hst⟩ := (develops_exec c command).slot hs
  rcases hst.shape with hshape | ⟨⟨met, rfl⟩, -⟩
  · exact ⟨t, ht, hshape⟩
  · -- the command is a meeting of this variable, so it must have failed
    cases hnarrow : c.narrow i met with
    | ok c' =>
      obtain ⟨t, hmetSlot, -⟩ := meets_of_narrow hnarrow
      simp [metIn_narrow hnarrow, hmetSlot] at hmet
    | error f =>
      refine ⟨s, ?_, rfl⟩
      simpa [exec, hnarrow, attempt] using hs

/-- One command: the variable goes on as a variable, in the state that it has after the meeting if
there is one. -/
theorem infer_exec (hs : c.slot? i = some s) (hshape : s.shape = .infer st location)
    (command : Command) :
    ∃ t, (c.exec command).2.slot? i = some t ∧
      t.shape = .infer ((c.metIn i command).toList.foldl State.meetShape st) location := by
  cases hmet : c.metIn i command with
  | none =>
    obtain ⟨t, ht, hsame⟩ := shape_exec_of_metIn_eq_none hs hmet
    exact ⟨t, ht, hsame.trans hshape⟩
  | some shape =>
    obtain ⟨met, c', t, rfl, hnarrow, ht, rfl⟩ := metIn_eq_some hmet
    obtain ⟨t', ht', hmeets⟩ := meets_of_narrow hnarrow
    obtain ⟨s', st', location', hs', hshape', hnew⟩ := hmeets.state
    obtain rfl : t = t' := Option.some.inj (ht.symm.trans ht')
    obtain rfl : s = s' := Option.some.inj (hs.symm.trans hs')
    cases hshape.symm.trans hshape'
    refine ⟨{ s with shape := .infer (st.meetShape t.shape) location }, ?_, rfl⟩
    simpa [exec, hnarrow, attempt] using hnew

/-- A run of any commands. -/
theorem infer_run (hs : c.slot? i = some s) (hshape : s.shape = .infer st location)
    (commands : List Command) :
    ∃ t, (c.run commands).slot? i = some t ∧
      t.shape = .infer ((c.metDuring i commands).foldl State.meetShape st) location := by
  induction commands generalizing c s st with
  | nil => exact ⟨s, hs, hshape⟩
  | cons command rest ih =>
    obtain ⟨t, ht, hstate⟩ := infer_exec hs hshape command
    rw [metDuring, List.foldl_append]
    exact ih ht hstate

theorem render_of_scalar {k : Scalar} (hs : c.slot? i = some s) (hshape : s.shape = .scalar k) :
    c.render i = .ok k.name := by
  have hlayout : s.layout? = some ([k.name].map Piece.text) := by
    simp [Slot.layout?, hshape]
  rw [render_of_texts hs hlayout]
  exact congrArg Except.ok String.empty_append

/-- The last number type that an inference variable meets decides what it falls back to, from any
state and through any list of shapes; so it does for the variables of a store, through any run of
commands, where a meeting changes the state of one slot and nothing else. The name of a number type
is the text that it is written with. -/
theorem last_scalar_decides_fallback :
    (∀ (st : State) (shapes : List Shape),
      st.Narrowed shapes (shapes.foldl State.meetShape st)) ∧
    (∀ (c : Context) (i : SlotId) (s : Slot) (st : State) (location : Location)
      (commands : List Command), c.slot? i = some s → s.shape = .infer st location →
      ∃ t st', (c.run commands).slot? i = some t ∧ t.shape = .infer st' location ∧
        st.Narrowed (c.metDuring i commands) st') ∧
    (∀ (c c' : Context) (i met : SlotId), c.narrow i met = .ok c' →
      ∃ t, c.slot? met = some t ∧ c.Meets i t.shape c') ∧
    ∀ (c : Context) (i : SlotId) (s : Slot) (k : Scalar), c.slot? i = some s →
      s.shape = .scalar k → c.render i = .ok k.name := by
  refine ⟨State.narrowed_foldl, ?_, ?_, ?_⟩
  · intro c i s st location commands hs hshape
    obtain ⟨t, ht, hstate⟩ := infer_run hs hshape commands
    exact ⟨t, _, ht, hstate, st.narrowed_foldl _⟩
  · intro c c' i met h
    exact meets_of_narrow h
  · intro c i s k hs hshape
    exact render_of_scalar hs hshape

/-- Lets the variable of the nested tuples meet `u8`, a tuple and `usize`. In between, the tuple is
asked to meet `f32`, which fails, and the node of the variable gets another type. -/
def narrowTwice : List Command :=
  [.narrow ⟨19⟩ ⟨0⟩, .narrow ⟨20⟩ ⟨10⟩, .bindType ⟨45⟩ ⟨10⟩, .narrow ⟨19⟩ ⟨20⟩,
    .narrow ⟨19⟩ ⟨13⟩, .narrow ⟨400⟩ ⟨10⟩]

/-- The variable falls back to `usize` and keeps sign and width of `u8`; its first meeting leaves
the tuple next to it alone. -/
theorem nestedTuples_narrowed_twice :
    (∃ t st, (nestedTuples.run narrowTwice).slot? ⟨19⟩ = some t ∧ t.shape = .infer st .unknown ∧
      st.default?.map Scalar.name = some "usize" ∧ st.hint.sign = some .unsigned ∧
      st.hint.size = some .w8) ∧
    (∃ c', nestedTuples.narrow ⟨19⟩ ⟨0⟩ = .ok c' ∧
      c'.slot? ⟨20⟩ = nestedTuples.slot? ⟨20⟩) ∧
    nestedTuples.render ⟨13⟩ = .ok "usize" := by
  have hinfer : (nestedTuples.slot? ⟨19⟩).map Slot.shape
      = some (.infer (.fresh .general) .unknown) := by decide +kernel
  have husize : (nestedTuples.slot? ⟨13⟩).map Slot.shape = some (.scalar .usize) := by
    decide +kernel
  have hmet : nestedTuples.metDuring ⟨19⟩ narrowTwice
      = [.scalar (.uint .w8), .tuple [⟨⟨45⟩⟩], .scalar .usize] := by decide +kernel
  obtain ⟨s, hs, hshape⟩ := Option.map_eq_some_iff.mp hinfer
  obtain ⟨u, hu, hscalar⟩ := Option.map_eq_some_iff.mp husize
  obtain ⟨-, hrun, hmeets, htext⟩ := last_scalar_decides_fallback
  refine ⟨?_, ?_, htext _ _ _ _ hu hscalar⟩
  · obtain ⟨t, st, ht, hstate, hnarrowed⟩ := hrun _ _ _ _ _ narrowTwice hs hshape
    rw [hmet] at hnarrowed
    obtain ⟨hname, -, -⟩ := hnarrowed.last .usize rfl
    obtain ⟨hsign, hsize⟩ := hnarrowed.sized (.uint .w8) rfl
    exact ⟨t, st, ht, hstate, hname, hsign, hsize⟩
  · obtain ⟨c', hnarrow⟩ : ∃ c', nestedTuples.narrow ⟨19⟩ ⟨0⟩ = .ok c' := ⟨_, rfl⟩
    obtain ⟨t, -, hone⟩ := hmeets _ _ _ _ hnarrow
    exact ⟨c', hnarrow, hone.others ⟨20⟩ (by decide)⟩

end Context

end TypeStore
