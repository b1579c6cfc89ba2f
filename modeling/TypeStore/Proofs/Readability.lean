import TypeStore.Proofs.Composition

/-!
# Texts can be read back

Types made of tuples, closures, arrays, slices, references, raw pointers and function pointers over
leaves are told apart by their texts. A `Form` is what such a type is, with nodes, bounds,
capacities, generics and captures left out. The text of a form never begins the text of another one
(`Form.readable`): each form starts with an opening, no opening begins another, and what comes after
an opening is read off in the same way. So two slots have one text exactly if they have one form.
-/

namespace TypeStore

/-! ## Forms -/

/-- A form without children. -/
inductive Leaf where
  | bool
  | char
  | str
  | never
  | error
  | scalar (scalar : Scalar)
  | infer (category : Inference.Category)
deriving DecidableEq

namespace Leaf

def text : Leaf → String
  | bool => "bool"
  | char => "char"
  | str => "str"
  | never => "!"
  | error => "error"
  | scalar s => s.name
  | infer category => category.text

/-- Every leaf. -/
def all : List Leaf :=
  [bool, char, str, never, error] ++ Scalar.all.map scalar
    ++ [infer .integral, infer .float, infer .general]

theorem mem_all (l : Leaf) : l ∈ all := by
  cases l with
  | scalar s =>
    cases s with
    | int w => cases w <;> decide
    | uint w => cases w <;> decide
    | float w => cases w <;> decide
    | _ => decide
  | infer category => cases category <;> decide
  | _ => decide

end Leaf

/-- What a type is, as far as its text tells. -/
inductive Form where
  | leaf (l : Leaf)
  | tuple (fields : List Form)
  | closure (parameters result : Form)
  | array (element : Form)
  | slice (element : Form)
  | reference (base : Form) (mutability : Mutability)
  | rawPointer (base : Form) (mutability : Mutability)
  | functionPointer (params : List Form) (result : Form)
deriving Inhabited

namespace Form

/-- Forms are nested in lists; in a list, the motive holds of every member. -/
@[elab_as_elim, induction_eliminator]
theorem induction {motive : Form → Prop} (leaf : ∀ l, motive (leaf l))
    (tuple : ∀ fields, (∀ f ∈ fields, motive f) → motive (tuple fields))
    (closure : ∀ parameters result, motive parameters → motive result →
      motive (closure parameters result))
    (array : ∀ element, motive element → motive (array element))
    (slice : ∀ element, motive element → motive (slice element))
    (reference : ∀ base m, motive base → motive (reference base m))
    (rawPointer : ∀ base m, motive base → motive (rawPointer base m))
    (functionPointer : ∀ params result, (∀ f ∈ params, motive f) → motive result →
      motive (functionPointer params result)) (f : Form) : motive f := by
  refine @Form.rec motive (fun fs => ∀ f ∈ fs, motive f) leaf tuple closure array slice reference
    rawPointer functionPointer ?_ ?_ f
  · simp
  · intro f fs hf hfs
    simpa using ⟨hf, hfs⟩

/-- The text of a form. -/
def text : Form → String
  | leaf l => l.text
  | tuple fields => "(" ++ ", ".intercalate (fields.map text) ++ ")"
  | closure parameters result => "|" ++ parameters.text ++ "| \x7b" ++ result.text ++ "\x7d"
  | array element => "[" ++ element.text ++ ":CAPACITY]"
  | slice element => "[" ++ element.text ++ "]"
  | reference base m => m.referenceMark ++ base.text
  | rawPointer base m => m.pointerMark ++ base.text
  | functionPointer params result =>
    "fn(" ++ ", ".intercalate (params.map text) ++ ") -> " ++ result.text

end Form

/-! ## Openings -/

/-- How a form begins. Arrays and slices begin alike, and so do references of both kinds. -/
inductive Opening where
  | leaf (l : Leaf)
  | tuple
  | closure
  | bracket
  | reference
  | rawPointer
  | functionPointer
deriving DecidableEq

namespace Opening

def text : Opening → String
  | leaf l => l.text
  | tuple => "("
  | closure => "|"
  | bracket => "["
  | reference => "&"
  | rawPointer => "*"
  | functionPointer => "fn("

/-- Every opening. -/
def all : List Opening :=
  Leaf.all.map leaf ++ [tuple, closure, bracket, reference, rawPointer, functionPointer]

theorem mem_all (o : Opening) : o ∈ all := by
  cases o with
  | leaf l => exact List.mem_append_left _ (List.mem_map_of_mem l.mem_all)
  | _ => decide

theorem eq_of_isPrefix {o p : Opening} (h : o.text.toList <+: p.text.toList) : o = p := by
  have hall : ∀ o ∈ all, ∀ p ∈ all, o.text.toList <+: p.text.toList → o = p := by
    decide +kernel
  exact hall o o.mem_all p p.mem_all h

/-- No opening begins another one. -/
theorem text_append_inj {o p : Opening} {x y : List Char}
    (h : o.text.toList ++ x = p.text.toList ++ y) : o = p ∧ x = y := by
  have heq : o = p := by
    rcases List.prefix_or_prefix_of_prefix (List.prefix_append _ x) (h ▸ List.prefix_append _ y)
      with hop | hpo
    · exact eq_of_isPrefix hop
    · exact (eq_of_isPrefix hpo).symm
  subst heq
  exact ⟨rfl, List.append_cancel_left h⟩

/-- No opening begins with what closes a list or with what marks a reference as writable. -/
theorem text_append_ne_cons (o : Opening) {d : Char} (hd : d = ')' ∨ d = 'm') (x y : List Char) :
    o.text.toList ++ x ≠ d :: y := by
  have hall : ∀ o ∈ all, o.text.toList.head?.any fun e => e != ')' && e != 'm' := by
    decide +kernel
  intro h
  have ho := hall o o.mem_all
  cases htext : o.text.toList with
  | nil => simp [htext] at ho
  | cons e rest =>
    rw [htext] at h ho
    cases h
    rcases hd with rfl | rfl <;> simp at ho

end Opening

namespace Form

def opening : Form → Opening
  | leaf l => .leaf l
  | tuple _ => .tuple
  | closure .. => .closure
  | array _ | slice _ => .bracket
  | reference .. => .reference
  | rawPointer .. => .rawPointer
  | functionPointer .. => .functionPointer

/-- What comes after the opening. -/
def rest : Form → String
  | leaf _ => ""
  | tuple fields => ", ".intercalate (fields.map text) ++ ")"
  | closure parameters result => parameters.text ++ "| \x7b" ++ result.text ++ "\x7d"
  | array element => element.text ++ ":CAPACITY]"
  | slice element => element.text ++ "]"
  | reference base .readOnly => base.text
  | reference base .writable => "mut " ++ base.text
  | rawPointer base .readOnly => "const " ++ base.text
  | rawPointer base .writable => "mut " ++ base.text
  | functionPointer params result =>
    ", ".intercalate (params.map text) ++ ") -> " ++ result.text

section Rest

-- Reading a text goes by these equations, one for each kind of form, and does not unfold `rest`.
variable (l : Leaf) (fields params : List Form) (parameters result element base : Form)

@[simp]
theorem rest_leaf : (leaf l).rest = "" := rfl

@[simp]
theorem rest_tuple : (tuple fields).rest = ", ".intercalate (fields.map text) ++ ")" := rfl

@[simp]
theorem rest_closure :
    (closure parameters result).rest = parameters.text ++ "| \x7b" ++ result.text ++ "\x7d" := rfl

@[simp]
theorem rest_array : (array element).rest = element.text ++ ":CAPACITY]" := rfl

@[simp]
theorem rest_slice : (slice element).rest = element.text ++ "]" := rfl

@[simp]
theorem rest_reference_readOnly : (reference base .readOnly).rest = base.text := rfl

@[simp]
theorem rest_reference_writable : (reference base .writable).rest = "mut " ++ base.text := rfl

@[simp]
theorem rest_rawPointer_readOnly : (rawPointer base .readOnly).rest = "const " ++ base.text := rfl

@[simp]
theorem rest_rawPointer_writable : (rawPointer base .writable).rest = "mut " ++ base.text := rfl

@[simp]
theorem rest_functionPointer : (functionPointer params result).rest
    = ", ".intercalate (params.map text) ++ ") -> " ++ result.text := rfl

end Rest

theorem toList_text (f : Form) : f.text.toList = f.opening.text.toList ++ f.rest.toList := by
  cases f with
  | reference base m =>
    cases m <;> simp [text, opening, Opening.text, Mutability.referenceMark]
  | rawPointer base m =>
    cases m <;> simp [text, opening, Opening.text, Mutability.pointerMark]
  | _ => simp [text, opening, Opening.text]

theorem opening_inj {f g : Form} {x y : List Char} (h : f.text.toList ++ x = g.text.toList ++ y) :
    f.opening = g.opening ∧ f.rest.toList ++ x = g.rest.toList ++ y := by
  rw [toList_text, toList_text, List.append_assoc, List.append_assoc] at h
  exact Opening.text_append_inj h

theorem text_append_ne_cons (f : Form) {d : Char} (hd : d = ')' ∨ d = 'm') (x y : List Char) :
    f.text.toList ++ x ≠ d :: y := by
  rw [toList_text, List.append_assoc]
  exact f.opening.text_append_ne_cons hd _ y

/-! ## Reading a text -/

/-- Any text that begins with the text of the form tells the form and the remainder. -/
def Readable (f : Form) : Prop :=
  ∀ g x y, f.text.toList ++ x = g.text.toList ++ y → f = g ∧ x = y

theorem intercalate_cons (a : String) (l : List String) :
    ", ".intercalate (a :: l) = a ++ String.join (l.map (", " ++ ·)) := by
  induction l generalizing a with
  | nil => simp
  | cons b l ih =>
    rw [String.intercalate_cons_cons, ih, List.map_cons, String.join_cons, String.append_assoc,
      String.append_assoc]

/-- Fields that stand behind a comma each end where the list is closed. -/
theorem behindCommas_inj {fs gs : List Form} {x y : List Char} (hfs : ∀ f ∈ fs, f.Readable)
    (h : (String.join ((fs.map text).map (", " ++ ·))).toList ++ ')' :: x
      = (String.join ((gs.map text).map (", " ++ ·))).toList ++ ')' :: y) : fs = gs ∧ x = y := by
  induction fs generalizing gs with
  | nil =>
    cases gs with
    | nil => simpa using h
    | cons g gs => simp at h
  | cons f fs ih =>
    cases gs with
    | nil => simp at h
    | cons g gs =>
      simp only [List.map_cons, String.join_cons, String.toList_append, List.append_assoc,
        List.append_cancel_left_eq] at h
      obtain ⟨rfl, hrest⟩ := hfs f List.mem_cons_self g _ _ h
      obtain ⟨rfl, rfl⟩ := ih (fun f hf => hfs f (List.mem_cons_of_mem _ hf)) hrest
      exact ⟨rfl, rfl⟩

/-- So does a list of fields, where the first one has no comma before it. -/
theorem fields_inj {fs gs : List Form} {x y : List Char} (hfs : ∀ f ∈ fs, f.Readable)
    (h : (", ".intercalate (fs.map text)).toList ++ ')' :: x
      = (", ".intercalate (gs.map text)).toList ++ ')' :: y) : fs = gs ∧ x = y := by
  cases fs with
  | nil =>
    cases gs with
    | nil => simpa using h
    | cons g gs =>
      -- one list is closed where the first field of the other begins
      rw [List.map_cons, intercalate_cons, String.toList_append, List.append_assoc] at h
      exact absurd h.symm (g.text_append_ne_cons (.inl rfl) _ _)
  | cons f fs =>
    rw [List.map_cons, intercalate_cons, String.toList_append, List.append_assoc] at h
    cases gs with
    | nil => exact absurd h (f.text_append_ne_cons (.inl rfl) _ _)
    | cons g gs =>
      rw [List.map_cons, intercalate_cons, String.toList_append, List.append_assoc] at h
      obtain ⟨rfl, hrest⟩ := hfs f List.mem_cons_self g _ _ h
      obtain ⟨rfl, rfl⟩ := behindCommas_inj (fun f hf => hfs f (List.mem_cons_of_mem _ hf)) hrest
      exact ⟨rfl, rfl⟩

theorem readable_leaf (l : Leaf) : (leaf l).Readable := by
  intro g x y h
  obtain ⟨ho, hrest⟩ := opening_inj h
  cases g with
  | leaf m =>
    cases ho
    exact ⟨rfl, hrest⟩
  | _ => cases ho

theorem readable_tuple {fields : List Form} (hfields : ∀ f ∈ fields, f.Readable) :
    (tuple fields).Readable := by
  intro g x y h
  obtain ⟨ho, hrest⟩ := opening_inj h
  cases g with
  | tuple fields' =>
    obtain ⟨rfl, rfl⟩ := fields_inj hfields (by simpa using hrest)
    exact ⟨rfl, rfl⟩
  | _ => cases ho

theorem readable_closure {parameters result : Form} (hparameters : parameters.Readable)
    (hresult : result.Readable) : (closure parameters result).Readable := by
  intro g x y h
  obtain ⟨ho, hrest⟩ := opening_inj h
  cases g with
  | closure parameters' result' =>
    simp only [rest_closure, String.toList_append, List.append_assoc] at hrest
    obtain ⟨rfl, hbody⟩ := hparameters _ _ _ hrest
    obtain ⟨rfl, hend⟩ := hresult _ _ _ (List.append_cancel_left hbody)
    exact ⟨rfl, List.append_cancel_left hend⟩
  | _ => cases ho

/-- Arrays and slices differ after the element only. -/
theorem readable_array {element : Form} (helement : element.Readable) :
    (array element).Readable := by
  intro g x y h
  obtain ⟨ho, hrest⟩ := opening_inj h
  cases g with
  | array element' =>
    simp only [rest_array, String.toList_append, List.append_assoc] at hrest
    obtain ⟨rfl, hend⟩ := helement _ _ _ hrest
    exact ⟨rfl, List.append_cancel_left hend⟩
  | slice element' =>
    simp only [rest_array, rest_slice, String.toList_append, List.append_assoc] at hrest
    obtain ⟨-, hend⟩ := helement _ _ _ hrest
    simp at hend
  | _ => cases ho

theorem readable_slice {element : Form} (helement : element.Readable) :
    (slice element).Readable := by
  intro g x y h
  obtain ⟨ho, hrest⟩ := opening_inj h
  cases g with
  | array element' =>
    simp only [rest_array, rest_slice, String.toList_append, List.append_assoc] at hrest
    obtain ⟨-, hend⟩ := helement _ _ _ hrest
    simp at hend
  | slice element' =>
    simp only [rest_slice, String.toList_append, List.append_assoc] at hrest
    obtain ⟨rfl, hend⟩ := helement _ _ _ hrest
    exact ⟨rfl, List.append_cancel_left hend⟩
  | _ => cases ho

/-- Behind the mark of a reference, `mut` is not mistaken for the base. -/
theorem readable_reference {base : Form} (hbase : base.Readable) (m : Mutability) :
    (reference base m).Readable := by
  intro g x y h
  obtain ⟨ho, hrest⟩ := opening_inj h
  cases g with
  | reference base' m' =>
    cases m <;> cases m' <;> simp only [rest_reference_readOnly, rest_reference_writable,
      String.toList_append, List.append_assoc] at hrest
    · obtain ⟨rfl, hend⟩ := hbase _ _ _ hrest
      exact ⟨rfl, hend⟩
    · exact absurd hrest (base.text_append_ne_cons (.inr rfl) _ _)
    · exact absurd hrest.symm (base'.text_append_ne_cons (.inr rfl) _ _)
    · obtain ⟨rfl, hend⟩ := hbase _ _ _ (List.append_cancel_left hrest)
      exact ⟨rfl, hend⟩
  | _ => cases ho

theorem readable_rawPointer {base : Form} (hbase : base.Readable) (m : Mutability) :
    (rawPointer base m).Readable := by
  intro g x y h
  obtain ⟨ho, hrest⟩ := opening_inj h
  cases g with
  | rawPointer base' m' =>
    cases m <;> cases m' <;> simp at hrest
    all_goals
      obtain ⟨rfl, hend⟩ := hbase _ _ _ hrest
      exact ⟨rfl, hend⟩
  | _ => cases ho

theorem readable_functionPointer {params : List Form} {result : Form}
    (hparams : ∀ f ∈ params, f.Readable) (hresult : result.Readable) :
    (functionPointer params result).Readable := by
  intro g x y h
  obtain ⟨ho, hrest⟩ := opening_inj h
  cases g with
  | functionPointer params' result' =>
    -- the arrow stands right behind the bracket that closes the parameters
    simp only [rest_functionPointer, String.toList_append, List.append_assoc] at hrest
    obtain ⟨rfl, harrow⟩ := fields_inj hparams hrest
    obtain ⟨rfl, rfl⟩ := hresult _ _ _ (by simpa using harrow)
    exact ⟨rfl, rfl⟩
  | _ => cases ho

/-- No text of a form begins the text of another one. -/
theorem readable (f : Form) : f.Readable := by
  induction f with
  | leaf l => exact readable_leaf l
  | tuple fields ih => exact readable_tuple ih
  | closure parameters result ihp ihr => exact readable_closure ihp ihr
  | array element ih => exact readable_array ih
  | slice element ih => exact readable_slice ih
  | reference base m ih => exact readable_reference ih m
  | rawPointer base m ih => exact readable_rawPointer ih m
  | functionPointer params result ihp ihr => exact readable_functionPointer ihp ihr

theorem text_injective : Function.Injective text := by
  intro f g h
  exact (f.readable g [] [] (by rw [h])).1

end Form

/-! ## Forms of slots -/

namespace Shape

/-- The shapes that have a form. -/
def isPlain : Shape → Bool
  | dynamic | function .. | adt _ | parameter .. | placeholder _ | projection .. => false
  | _ => true

/-- The form of a shape, given the forms of its children. -/
def formBy? (form? : TypeVar → Option Form) : Shape → Option Form
  | bool => some (.leaf .bool)
  | char => some (.leaf .char)
  | str => some (.leaf .str)
  | never => some (.leaf .never)
  | error => some (.leaf .error)
  | scalar s => some (.leaf (.scalar s))
  | infer state _ => some (.leaf (.infer state.category))
  | tuple fields => do return .tuple (← fields.mapM form?)
  | closure parameters result _ _ => do return .closure (← form? parameters) (← form? result)
  | array element _ => do return .array (← form? element)
  | slice element => do return .slice (← form? element)
  | reference base m => do return .reference (← form? base) m
  | rawPointer base m => do return .rawPointer (← form? base) m
  | functionPointer params result => do
    return .functionPointer (← params.mapM form?) (← form? result)
  | _ => none

theorem mapM_eq_map {form? : TypeVar → Option Form} {form : TypeVar → Form} {vars : List TypeVar}
    (h : ∀ v ∈ vars, form? v = some (form v)) : vars.mapM form? = some (vars.map form) := by
  induction vars with
  | nil => rfl
  | cons v rest ih =>
    simp [List.mapM_cons, h v List.mem_cons_self, ih fun w hw => h w (List.mem_cons_of_mem _ hw)]

end Shape

/-- A plain slot whose children have forms has a form, and the text of the slot is its text. -/
theorem Slot.exists_formBy? {s : Slot} {form? : TypeVar → Option Form} {form : TypeVar → Form}
    (hplain : s.shape.isPlain) (h : ∀ v ∈ s.shape.written, form? v = some (form v)) :
    ∃ f, s.shape.formBy? form? = some f ∧ s.textBy? (fun v => (form v).text) = some f.text := by
  obtain ⟨node, binding, declaration, bounds, absorbed, shape⟩ := s
  cases shape with
  | dynamic | function | adt | parameter | placeholder | projection => cases hplain
  | tuple fields =>
    have hfields : fields.mapM form? = some (fields.map form) := Shape.mapM_eq_map h
    exact ⟨.tuple (fields.map form), by simp [Shape.formBy?, hfields],
      by simp [textBy?, Form.text, Function.comp_def]⟩
  | functionPointer params result =>
    have hparams : params.mapM form? = some (params.map form) :=
      Shape.mapM_eq_map fun v hv => h v (by simp [Shape.written, hv])
    have hresult : form? result = some (form result) := h result (by simp [Shape.written])
    exact ⟨.functionPointer (params.map form) (form result),
      by simp [Shape.formBy?, hparams, hresult], by simp [textBy?, Form.text, Function.comp_def]⟩
  | closure parameters result =>
    have hparameters : form? parameters = some (form parameters) :=
      h parameters (by simp [Shape.written])
    have hresult : form? result = some (form result) := h result (by simp [Shape.written])
    exact ⟨.closure (form parameters) (form result),
      by simp [Shape.formBy?, hparameters, hresult], by simp [textBy?, Form.text]⟩
  | array element =>
    have helement : form? element = some (form element) := h element (by simp [Shape.written])
    exact ⟨.array (form element), by simp [Shape.formBy?, helement], by simp [textBy?, Form.text]⟩
  | slice element =>
    have helement : form? element = some (form element) := h element (by simp [Shape.written])
    exact ⟨.slice (form element), by simp [Shape.formBy?, helement], by simp [textBy?, Form.text]⟩
  | reference base m =>
    have hbase : form? base = some (form base) := h base (by simp [Shape.written])
    refine ⟨.reference (form base) m, by simp [Shape.formBy?, hbase], ?_⟩
    cases m <;> rw [Form.text] <;> rfl
  | rawPointer base m =>
    have hbase : form? base = some (form base) := h base (by simp [Shape.written])
    refine ⟨.rawPointer (form base) m, by simp [Shape.formBy?, hbase], ?_⟩
    cases m <;> rw [Form.text] <;> rfl
  | _ => exact ⟨.leaf _, rfl, by rw [Form.text]; rfl⟩

namespace Context

variable {c : Context} {i j : SlotId} {s : Slot}

/-- The form of a child, given the forms of the slots one step down. -/
def childForm? (c : Context) (i : SlotId) (form? : ∀ j, c.Writes i j → Option Form)
    (v : TypeVar) : Option Form :=
  match c.typeOf? v.node with
  | none => none
  | some j => if hij : c.Writes i j then form? j hij else none

theorem childForm?_of_type {form? : ∀ j, c.Writes i j → Option Form} {v : TypeVar}
    (hv : c.typeOf? v.node = some j) (hij : c.Writes i j) :
    c.childForm? i form? v = form? j hij := by
  simp only [childForm?, hv, dif_pos hij]

/-- The form of a slot, if all of the tree below it has forms. -/
def form? (c : Context) (i : SlotId) (h : c.FiniteBelow i) : Option Form :=
  match c.slot? i with
  | none => none
  | some s => s.shape.formBy? (c.childForm? i fun j hij => c.form? j (h.inv hij))
termination_by (⟨i, h⟩ : { k // Acc (fun j k => c.Writes k j) k })
decreasing_by exact hij

/-- The slot is there, it is plain, and all of its children have types. -/
def PlainAt (c : Context) (i : SlotId) : Prop :=
  ∃ s ∈ c.slot? i, s.shape.isPlain ∧ ∀ v ∈ s.shape.written, (c.typeOf? v.node).isSome

instance (c : Context) (i : SlotId) : Decidable (c.PlainAt i) :=
  inferInstanceAs (Decidable (∃ s ∈ c.slot? i, _ ∧ _))

/-- All that is written below a slot is plain. -/
def Legible (c : Context) (i : SlotId) : Prop := ∀ j, c.Unfolds i j → c.PlainAt j

theorem Legible.down (h : c.Legible i) (hij : c.Writes i j) : c.Legible j := by
  intro k hk
  exact h k (.head hij hk)

/-- A legible slot has a form and is written as the text of that form. -/
theorem Legible.exists_form? (hlegible : c.Legible i) (h : c.FiniteBelow i) :
    ∃ f, c.form? i h = some f ∧ c.render i = .ok f.text := by
  induction h with
  | intro i hbelow ih =>
    have hfinite : c.FiniteBelow i := ⟨i, hbelow⟩
    obtain ⟨s, hs, hplain, htyped⟩ := hlegible i .refl
    show ∃ f, c.form? i hfinite = some f ∧ _
    rw [form?, hs]
    dsimp only
    have heach : ∀ v ∈ s.shape.written, ∃ f,
        c.childForm? i (fun j hij => c.form? j (hfinite.inv hij)) v = some f ∧
        ∃ j, c.typeOf? v.node = some j ∧ c.render j = .ok f.text := by
      intro v hv
      obtain ⟨j, hj⟩ := Option.isSome_iff_exists.mp (htyped v hv)
      have hij : c.Writes i j := (writes_iff hs).mpr ⟨v, hv, hj⟩
      obtain ⟨f, hf, htext⟩ := ih j hij (hlegible.down hij)
      exact ⟨f, by rw [childForm?_of_type hj hij, hf], j, hj, htext⟩
    choose! form hform htext using heach
    obtain ⟨f, hf, ht⟩ := Slot.exists_formBy? hplain hform
    refine ⟨f, hf, GrowsTo.render_eq_ok.mpr ?_⟩
    simpa using write_eq_textBy? hfinite hs htext ht ""

/-- Two legible slots have texts, and they have one text exactly if they have one form. -/
theorem render_eq_render_iff {a b : SlotId} (ha : c.CircleFree a) (hb : c.CircleFree b)
    (halegible : c.Legible a) (hblegible : c.Legible b) :
    ∃ f g, c.form? a ha.finiteBelow = some f ∧ c.form? b hb.finiteBelow = some g ∧
      c.render a = .ok f.text ∧ c.render b = .ok g.text ∧ (c.render a = c.render b ↔ f = g) := by
  obtain ⟨f, hf, hrenderf⟩ := halegible.exists_form? ha.finiteBelow
  obtain ⟨g, hg, hrenderg⟩ := hblegible.exists_form? hb.finiteBelow
  refine ⟨f, g, hf, hg, hrenderf, hrenderg, ?_⟩
  rw [hrenderf, hrenderg, Except.ok.injEq]
  exact Form.text_injective.eq_iff

/-! ## Closures over arrays and slices -/

/-- Plain slots that lead to each other only are legible. -/
theorem Legible.of_closed {slots : List SlotId} (hclosed : ∀ k ∈ slots, c.writtenAt k ⊆ slots)
    (h : ∀ k ∈ slots, c.PlainAt k) (hi : i ∈ slots) : c.Legible i := by
  have hmem : ∀ j, c.Unfolds i j → j ∈ slots := by
    intro j hj
    induction hj with
    | refl => exact hi
    | tail _ hone ih => exact hclosed _ ih hone
  intro j hj
  exact h j (hmem j hj)

/-- Makes closures from a tuple of one array or slice to the same, twice with an array. -/
def makeClosures : List Command :=
  [.register (.new ⟨45⟩ (.array ⟨⟨7⟩⟩ ⟨8⟩)), .register (.new ⟨46⟩ (.tuple [⟨⟨45⟩⟩])),
    .register (.new ⟨47⟩ (.closure ⟨⟨46⟩⟩ ⟨⟨45⟩⟩ .none ∅)),
    .register (.new ⟨48⟩ (.array ⟨⟨7⟩⟩ ⟨10⟩)), .register (.new ⟨49⟩ (.tuple [⟨⟨48⟩⟩])),
    .register (.new ⟨50⟩ (.closure ⟨⟨49⟩⟩ ⟨⟨48⟩⟩ .none (.ofList [⟨45⟩]))),
    .register (.new ⟨51⟩ (.slice ⟨⟨7⟩⟩)), .register (.new ⟨52⟩ (.tuple [⟨⟨51⟩⟩])),
    .register (.new ⟨53⟩ (.closure ⟨⟨52⟩⟩ ⟨⟨51⟩⟩ .none ∅))]

def closures : Context := (new .standard).run makeClosures

/-- Capacities and captures make no difference to form and text, and the kind of sequence does. -/
theorem closures_told_apart :
    closures.render ⟨21⟩ = closures.render ⟨24⟩ ∧ closures.render ⟨21⟩ ≠ closures.render ⟨27⟩ ∧
    ∃ f g h₂₁ h₂₄ h₂₇, closures.form? ⟨21⟩ h₂₁ = some f ∧ closures.form? ⟨24⟩ h₂₄ = some f ∧
      closures.form? ⟨27⟩ h₂₇ = some g ∧ f ≠ g := by
  have hcircle : ∀ i, closures.CircleFree i := by
    apply CircleFree.of_earlier
    decide +kernel
  have hlegible : ∀ i ∈ (List.range 28).map SlotId.mk, closures.Legible i := by
    intro i hi
    refine Legible.of_closed ?_ ?_ hi
    all_goals decide +kernel
  have harray : closures.render ⟨21⟩ = .ok "|([u8:CAPACITY])| \x7b[u8:CAPACITY]\x7d" := rfl
  have harray' : closures.render ⟨24⟩ = .ok "|([u8:CAPACITY])| \x7b[u8:CAPACITY]\x7d" := rfl
  have hslice : closures.render ⟨27⟩ = .ok "|([u8])| \x7b[u8]\x7d" := rfl
  have hsame : closures.render ⟨21⟩ = closures.render ⟨24⟩ := harray.trans harray'.symm
  have hother : closures.render ⟨21⟩ ≠ closures.render ⟨27⟩ := by
    rw [harray, hslice]
    decide
  obtain ⟨f, f', hf, hf', -, -, hiff⟩ := render_eq_render_iff (hcircle ⟨21⟩) (hcircle ⟨24⟩)
    (hlegible _ (by decide)) (hlegible _ (by decide))
  obtain ⟨f'', g, hf'', hg, -, -, hiff'⟩ := render_eq_render_iff (hcircle ⟨21⟩) (hcircle ⟨27⟩)
    (hlegible _ (by decide)) (hlegible _ (by decide))
  obtain rfl := hiff.mp hsame
  rw [hf] at hf''
  cases hf''
  exact ⟨hsame, hother, f, g, _, _, _, hf, hf', hg, mt hiff'.mpr hother⟩

end Context

end TypeStore
