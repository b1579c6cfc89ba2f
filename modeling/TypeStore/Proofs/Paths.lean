import TypeStore.Path

/-!
# Paths by their names

Nodes and units do not count when paths are compared, put into a set or written: everything goes by
the names of the segments. `compare` looks at the number of names first. That makes it an order
which appending respects on both sides. Name by name alone it would not be one: `a` comes before
`a::b`, but behind it once both are followed by `c`.

The text of a path keeps its names apart by `::`. It tells the names as long as none of them is
empty or has a colon of its own.
-/

namespace TypeStore.Path

variable {a b c : Path}

/-! ## Names -/

@[simp]
theorem length_names (p : Path) : p.names.length = p.length := by
  simp [names, length]

theorem sameNames_iff : a.sameNames b = true ↔ a.names = b.names := by
  simp [sameNames]

/-- The number of names that a key has beside the names adds nothing to them. -/
theorem key_eq_iff : a.key = b.key ↔ a.names = b.names := by
  constructor
  · intro h
    exact congrArg Prod.snd h
  · intro h
    have hlength : a.length = b.length := by
      rw [← length_names, h, length_names]
    rw [key, key, h, hlength]

/-! ## The order -/

theorem compare_eq (a b : Path) :
    compare a b = (compare a.length b.length).then (compare a.names b.names) := rfl

instance : Std.TransOrd Path :=
  inferInstanceAs (Std.TransCmp (compareLex (compareOn length) (compareOn names)))

theorem compare_eq_eq_iff : compare a b = .eq ↔ a.names = b.names := by
  rw [compare_eq, Ordering.then_eq_eq, Std.LawfulEqOrd.compare_eq_iff_eq,
    Std.LawfulEqOrd.compare_eq_iff_eq]
  constructor
  · rintro ⟨-, hnames⟩
    exact hnames
  · intro hnames
    exact ⟨by rw [← length_names, hnames, length_names], hnames⟩

/-! ## Appending -/

@[simp]
theorem names_append (a b : Path) : (a.append b).names = a.names ++ b.names := by
  simp [append, names]

@[simp]
theorem length_append (a b : Path) : (a.append b).length = a.length + b.length := by
  simp [append, length]

theorem append_assoc (a b c : Path) : (a.append b).append c = a.append (b.append c) := by
  simp [append]

theorem append_empty (a : Path) : a.append empty = a := by
  simp [append, empty]

theorem segments_empty_append (a : Path) : (empty.append a).segments = a.segments := by
  simp [append, empty]

/-- Equal names in front are passed over. -/
theorem compare_names_append_left (front xs ys : List String) :
    compare (front ++ xs) (front ++ ys) = compare xs ys := by
  induction front with
  | nil => rfl
  | cons name front ih =>
    rw [List.cons_append, List.cons_append, List.compare_cons_cons, Std.ReflOrd.compare_self, ih]
    rfl

/-- Behind lists of one length, equal names are compared with one another and decide nothing. -/
theorem compare_names_append_right {xs ys : List String} (hlength : xs.length = ys.length)
    (back : List String) : compare (xs ++ back) (ys ++ back) = compare xs ys := by
  induction xs generalizing ys with
  | nil =>
    obtain rfl : ys = [] := List.length_eq_zero_iff.mp hlength.symm
    rw [Std.ReflOrd.compare_self, Std.ReflOrd.compare_self]
  | cons x xs ih =>
    cases ys with
    | nil => cases hlength
    | cons y ys =>
      have hlength : xs.length = ys.length := Nat.succ.inj hlength
      rw [List.cons_append, List.cons_append, List.compare_cons_cons, List.compare_cons_cons,
        ih hlength]

theorem compare_add_left (k m n : Nat) : compare (k + m) (k + n) = compare m n := by
  simp [compare, compareOfLessAndEq]

theorem compare_append_left (a b c : Path) : compare (a.append b) (a.append c) = compare b c := by
  rw [compare_eq, compare_eq b c, length_append, length_append, names_append, names_append,
    compare_add_left, compare_names_append_left]

theorem compare_append_right (a b c : Path) : compare (b.append a) (c.append a) = compare b c := by
  rw [compare_eq, compare_eq b c, length_append, length_append, names_append, names_append,
    Nat.add_comm b.length, Nat.add_comm c.length, compare_add_left]
  by_cases hlength : b.length = c.length
  · rw [compare_names_append_right (by simpa using hlength)]
  · -- paths of different lengths are told apart before their names are looked at
    have hne : compare b.length c.length ≠ .eq := by
      rwa [Ne, Std.LawfulEqOrd.compare_eq_iff_eq]
    cases h : compare b.length c.length with
    | eq => exact absurd h hne
    | lt => rfl
    | gt => rfl

/-- Paths are totally ordered up to their names, and a set of paths goes by the names as well.
Appending is associative, has the empty path as its unit as far as segments go, and keeps the unit
of the path in front. It respects names, and what is appended to two paths, on either side, leaves
their order as it is. -/
theorem ordered_by_names_and_append (a b c : Path) :
    (compare a b = .eq ↔ a.sameNames b = true) ∧
      compare b a = (compare a b).swap ∧
      ((compare a b).isLE = true → (compare b c).isLE = true → (compare a c).isLE = true) ∧
      (a.sameNames b = true ↔ a.key = b.key) ∧
      (a.append b).append c = a.append (b.append c) ∧
      (empty.append a).segments = a.segments ∧
      (a.append empty).segments = a.segments ∧
      (a.append b).crate = a.crate ∧
      (a.append b).length = a.length + b.length ∧
      (∀ a' b' : Path, a.sameNames a' = true → b.sameNames b' = true →
        (a.append b).sameNames (a'.append b') = true) ∧
      compare (a.append b) (a.append c) = compare b c ∧
      compare (b.append a) (c.append a) = compare b c := by
  refine ⟨?_, Std.OrientedCmp.eq_swap, Std.TransCmp.isLE_trans, ?_, append_assoc a b c,
    segments_empty_append a, ?_, rfl, length_append a b, ?_, compare_append_left a b c,
    compare_append_right a b c⟩
  · rw [compare_eq_eq_iff, sameNames_iff]
  · rw [sameNames_iff, key_eq_iff]
  · rw [append_empty]
  · intro a' b' ha hb
    rw [sameNames_iff] at ha hb ⊢
    rw [names_append, names_append, ha, hb]

/-- A path and a longer one that begins with it, followed by another name. -/
theorem followedPaths_ordered :
    let a := single ⟨1⟩ "a"
    let b := a.append (single ⟨2⟩ "b")
    let b' := (single ⟨3⟩ "a").append (single ⟨4⟩ "b")
    let c := single ⟨5⟩ "c"
    b ≠ b' ∧ b.sameNames b' = true ∧ (b.append c).sameNames (b'.append c) = true ∧
      (compare a b).isLE = true ∧ (compare b b').isLE = true ∧ (compare a b').isLE = true ∧
      compare (a.append c) (b.append c) = .lt := by
  intro a b b' c
  have hnames : b.sameNames b' = true := by decide
  have hab : (compare a b).isLE = true := by decide
  have hbb' : (compare b b').isLE = true := by decide
  obtain ⟨-, -, htrans, -⟩ := ordered_by_names_and_append a b b'
  obtain ⟨-, -, -, -, -, -, -, -, -, hrespects, -⟩ := ordered_by_names_and_append b c c
  obtain ⟨-, -, -, -, -, -, -, -, -, -, -, hbehind⟩ := ordered_by_names_and_append c a b
  refine ⟨by decide, hnames, hrespects b' c hnames (by decide), hab, hbb', htrans hab hbb', ?_⟩
  rw [hbehind]
  decide

/-! ## Texts -/

/-- No name is empty, and none has a colon in it. -/
def IsPlain (p : Path) : Prop := ∀ name ∈ p.names, name ≠ "" ∧ ':' ∉ name.toList

instance (p : Path) : Decidable p.IsPlain :=
  inferInstanceAs (Decidable (∀ name ∈ p.names, name ≠ "" ∧ ':' ∉ name.toList))

/-- What is written behind a name: nothing, or two colons and the remaining names. -/
def behind : List String → List Char
  | [] => []
  | name :: rest => ':' :: ':' :: ("::".intercalate (name :: rest)).toList

theorem toList_intercalate_cons (name : String) (rest : List String) :
    ("::".intercalate (name :: rest)).toList = name.toList ++ behind rest := by
  cases rest with
  | nil => simp [behind]
  | cons next rest =>
    rw [String.intercalate_cons_cons, String.toList_append, String.toList_append,
      List.append_assoc]
    rfl

/-- A name without a colon goes up to the first colon. -/
theorem takeWhile_append_behind {name : String} (hname : ':' ∉ name.toList) (rest : List String) :
    (name.toList ++ behind rest).takeWhile (· != ':') = name.toList := by
  have hall : ∀ x ∈ name.toList, (x != ':') = true := by
    intro x hx
    rw [bne_iff_ne]
    rintro rfl
    exact hname hx
  rw [List.takeWhile_append_of_pos hall]
  cases rest with
  | nil => exact List.append_nil _
  | cons next rest => exact List.append_nil _

theorem intercalate_eq_of_behind_eq {ms ns : List String} (h : behind ms = behind ns) :
    "::".intercalate ms = "::".intercalate ns := by
  cases ms with
  | nil =>
    cases ns with
    | nil => rfl
    | cons n ns => cases h
  | cons m ms =>
    cases ns with
    | nil => cases h
    | cons n ns =>
      have htext := (List.cons.inj (List.cons.inj h).2).2
      exact String.toList_injective htext

/-- Only a list without names is written as nothing. -/
theorem eq_nil_of_intercalate_eq_empty {ms : List String} (hms : ∀ m ∈ ms, m ≠ "")
    (h : "::".intercalate ms = "") : ms = [] := by
  cases ms with
  | nil => rfl
  | cons m ms =>
    have htext : m.toList ++ behind ms = [] := by
      rw [← toList_intercalate_cons, h]
      rfl
    have hempty : m = "" := String.toList_eq_nil_iff.mp (List.append_eq_nil_iff.mp htext).1
    exact absurd hempty (hms m List.mem_cons_self)

/-- The first name is what comes before the first colon, and the other names follow behind. -/
theorem eq_of_intercalate_eq {ms ns : List String} (hms : ∀ m ∈ ms, m ≠ "" ∧ ':' ∉ m.toList)
    (hns : ∀ n ∈ ns, n ≠ "" ∧ ':' ∉ n.toList)
    (h : "::".intercalate ms = "::".intercalate ns) : ms = ns := by
  induction ms generalizing ns with
  | nil => exact (eq_nil_of_intercalate_eq_empty (fun n hn => (hns n hn).1) h.symm).symm
  | cons m ms ih =>
    cases ns with
    | nil => exact eq_nil_of_intercalate_eq_empty (fun m hm => (hms m hm).1) h
    | cons n ns =>
      have htext : m.toList ++ behind ms = n.toList ++ behind ns := by
        rw [← toList_intercalate_cons, ← toList_intercalate_cons, h]
      have hname : m.toList = n.toList := by
        rw [← takeWhile_append_behind (hms m List.mem_cons_self).2 ms, htext,
          takeWhile_append_behind (hns n List.mem_cons_self).2]
      obtain rfl : m = n := String.toList_injective hname
      have hrest := intercalate_eq_of_behind_eq (List.append_cancel_left htext)
      rw [ih (fun m hm => hms m (List.mem_cons_of_mem _ hm))
        (fun n hn => hns n (List.mem_cons_of_mem _ hn)) hrest]

theorem names_ne_nil (h : a.isEmpty = false) : a.names ≠ [] := by
  intro hnames
  simp_all [isEmpty, names]

/-- The texts of plain paths tell their names, and the text of one path appended to another is
made of the texts of the two. -/
theorem text_tells_names_and_appends (a b : Path) :
    (a.IsPlain → b.IsPlain → (a.text = b.text ↔ a.sameNames b = true)) ∧
      (a.isEmpty = false → b.isEmpty = false →
        (a.append b).text = a.text ++ "::" ++ b.text) := by
  constructor
  · intro ha hb
    rw [sameNames_iff]
    constructor
    · exact eq_of_intercalate_eq ha hb
    · intro hnames
      rw [text, text, hnames]
  · intro ha hb
    rw [text, names_append]
    exact String.intercalate_append_of_ne_nil (names_ne_nil ha) (names_ne_nil hb)

/-- Two paths with the same names, and one that is shorter. -/
theorem vectors_told_apart :
    let a := (single ⟨1⟩ "größe").append (single ⟨2⟩ "Vec")
    let b := (single ⟨10⟩ "größe").append (single ⟨20⟩ "Vec")
    let c := single ⟨3⟩ "größeVec"
    a.IsPlain ∧ b.IsPlain ∧ c.IsPlain ∧ a.text = b.text ∧ a.text ≠ c.text ∧
      (c.append a).text = c.text ++ "::" ++ a.text := by
  intro a b c
  have ha : a.IsPlain := by decide
  have hb : b.IsPlain := by decide
  have hc : c.IsPlain := by decide
  have hother : a.sameNames c = false := by decide
  refine ⟨ha, hb, hc, ?_, ?_, (text_tells_names_and_appends c a).2 (by decide) (by decide)⟩
  · rw [(text_tells_names_and_appends a b).1 ha hb]
    decide
  · rw [Ne, (text_tells_names_and_appends a c).1 ha hc, hother]
    decide

/-- A name with colons of its own reads as two. -/
example : (single ⟨1⟩ "std::Vec").text = ((single ⟨1⟩ "std").append (single ⟨2⟩ "Vec")).text := by
  decide

end TypeStore.Path
