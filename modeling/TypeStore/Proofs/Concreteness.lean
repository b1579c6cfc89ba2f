import Mathlib.Logic.Relation
import TypeStore.Proofs.Persistence
import TypeStore.Proofs.Session

/-!
# What concreteness means

A type comprises the types that the check for concreteness looks at on the way down. Some types are
open by themselves: a parameter, a projection, a data type that stores nothing and waits for
arguments. A type is concrete if it comprises no open type.

The types that a type comprises may form circles. The check does not enter a data type again that
it is inside of, and takes it for concrete there. It misses nothing by that: a way from a data type
to an open type that comes back to the data type can be cut short to one that does not, and that one
is looked at.
-/

namespace TypeStore

/-! ## Shapes -/

namespace Shape

/-- The children that the check looks at. -/
def inspected : Shape → List TypeVar
  | function _ params result _ => params.map Param.type ++ [result]
  | functionPointer params result => params ++ [result]
  | tuple fields => fields
  | array element _ => [element]
  | slice element => [element]
  | reference base _ => [base]
  | rawPointer base _ => [base]
  | adt a => if a.isUnit then [] else a.inspectedTypes
  | _ => []

/-- Not concrete by itself. -/
def isOpen : Shape → Bool
  | parameter .. => true
  | projection .. => true
  | adt a => a.isUnit && !a.generics.params.isEmpty
  | _ => false

/-- The demand of a shape other than a closure asks for its inspected children, or else decides
whether the shape is open. -/
theorem demand_inspected {shape : Shape} (h : shape.kind ≠ .closure) :
    match shape.demand with
    | .settled b => shape.inspected = [] ∧ shape.isOpen = !b
    | .all vars => shape.inspected = vars ∧ shape.isOpen = false
    | .fields vars => shape.inspected = vars ∧ shape.isOpen = false
    | .closure .. => False := by
  cases shape with
  | adt a =>
    cases hunit : a.isUnit <;>
      simp [demand, inspected, isOpen, hunit, Generics.needsSubstitution]
  | closure parameters result generics captures => exact h rfl
  | _ => simp [demand, inspected, isOpen]

end Shape

namespace Context

variable {c : Context} {i j k root : SlotId} {s : Slot} {fuel : Nat} {entered : List NodeId}
  {path : List SlotId}

/-! ## Types that a type comprises -/

/-- The slots that the check looks at right below a slot. -/
def inspectedAt (c : Context) (i : SlotId) : List SlotId :=
  match c.slot? i with
  | some s => s.shape.inspected.filterMap fun v => c.typeOf? v.node
  | none => []

/-- One step down. -/
def Inspects (c : Context) (i j : SlotId) : Prop := j ∈ c.inspectedAt i

instance (c : Context) (i j : SlotId) : Decidable (c.Inspects i j) :=
  inferInstanceAs (Decidable (j ∈ c.inspectedAt i))

/-- Any number of steps down. -/
def Comprises (c : Context) : SlotId → SlotId → Prop := Relation.ReflTransGen c.Inspects

/-- A slot that is not concrete by itself. -/
def IsOpen (c : Context) (i : SlotId) : Prop := ∃ s, c.slot? i = some s ∧ s.shape.isOpen = true

/-- No closure is comprised. -/
def ClosureFree (c : Context) (i : SlotId) : Prop :=
  ∀ j s, c.Comprises i j → c.slot? j = some s → s.kind ≠ .closure

/-- Of the slots that are comprised, no two were made for one node. -/
def NodesDistinct (c : Context) (i : SlotId) : Prop :=
  ∀ j k s t, c.Comprises i j → c.Comprises i k → c.slot? j = some s → c.slot? k = some t →
    s.node = t.node → j = k

theorem inspects_iff (hs : c.slot? i = some s) :
    c.Inspects i j ↔ ∃ v ∈ s.shape.inspected, c.typeOf? v.node = some j := by
  simp [Inspects, inspectedAt, hs]

theorem ClosureFree.down (h : c.ClosureFree i) (hij : c.Inspects i j) : c.ClosureFree j := by
  intro k s hk hs
  exact h k s (.head hij hk) hs

section Closed

variable {slots : List SlotId} (hi : i ∈ slots) (hclosed : ∀ k ∈ slots, c.inspectedAt k ⊆ slots)

include hi hclosed

/-- Whatever is comprised is in every set of slots that is closed under steps down. -/
theorem Comprises.mem (h : c.Comprises i j) : j ∈ slots := by
  induction h with
  | refl => exact hi
  | tail _ hstep ih => exact hclosed _ ih hstep

theorem ClosureFree.of_closed (h : ∀ k ∈ slots, ∀ s ∈ c.slot? k, s.kind ≠ .closure) :
    c.ClosureFree i := by
  intro k s hk hs
  exact h k (hk.mem hi hclosed) s hs

theorem NodesDistinct.of_closed
    (h : ∀ j ∈ slots, ∀ k ∈ slots, ∀ s ∈ c.slot? j, ∀ t ∈ c.slot? k, s.node = t.node → j = k) :
    c.NodesDistinct i := by
  intro j k s t hj hk hs ht
  exact h j (hj.mem hi hclosed) k (hk.mem hi hclosed) s hs t ht

end Closed

/-! ## Checking children -/

theorem exists_of_allConcrete_eq_false {check : SlotId → Except Fault Bool} {vars : List TypeVar}
    (h : c.allConcrete check vars = .ok false) :
    ∃ v ∈ vars, ∃ j, c.typeOf? v.node = some j ∧ check j = .ok false := by
  induction vars with
  | nil => cases h
  | cons v rest ih =>
    rw [allConcrete_cons_eq] at h
    obtain ⟨j, htype, h⟩ := exists_of_bind_eq_ok h
    obtain ⟨b, hcheck, h⟩ := exists_of_bind_eq_ok h
    cases b with
    | false => exact ⟨v, by simp, j, typeOf_eq_ok_iff.mp htype, hcheck⟩
    | true =>
      obtain ⟨w, hw, hfound⟩ := ih h
      exact ⟨w, by simp [hw], hfound⟩

theorem of_allConcrete_eq_true {check : SlotId → Except Fault Bool} {vars : List TypeVar}
    (h : c.allConcrete check vars = .ok true) {v : TypeVar} (hv : v ∈ vars)
    (hj : c.typeOf? v.node = some j) : check j = .ok true := by
  induction vars with
  | nil => cases hv
  | cons w rest ih =>
    rw [allConcrete_cons_eq] at h
    obtain ⟨k, htype, h⟩ := exists_of_bind_eq_ok h
    obtain ⟨b, hcheck, h⟩ := exists_of_bind_eq_ok h
    cases b with
    | false => cases h
    | true =>
      rcases List.mem_cons.mp hv with rfl | hv
      · rw [typeOf_eq_ok_iff, hj] at htype
        cases htype
        exact hcheck
      · exact ih h hv

theorem Inspects.check {check : SlotId → Except Fault Bool} (hij : c.Inspects i j)
    (hs : c.slot? i = some s) (h : c.allConcrete check s.shape.inspected = .ok true) :
    check j = .ok true := by
  obtain ⟨v, hv, hj⟩ := (inspects_iff hs).mp hij
  exact of_allConcrete_eq_true h hv hj

/-! ## A refusal is justified -/

theorem comprises_open_of_child {check : SlotId → Except Fault Bool} (hs : c.slot? i = some s)
    (h : c.allConcrete check s.shape.inspected = .ok false)
    (hcheck : ∀ j, c.Inspects i j → check j = .ok false → ∃ k, c.Comprises j k ∧ c.IsOpen k) :
    ∃ k, c.Comprises i k ∧ c.IsOpen k := by
  obtain ⟨v, hv, j, hj, hfalse⟩ := exists_of_allConcrete_eq_false h
  have hstep : c.Inspects i j := (inspects_iff hs).mpr ⟨v, hv, hj⟩
  obtain ⟨k, hk, hopen⟩ := hcheck j hstep hfalse
  exact ⟨k, .head hstep hk, hopen⟩

/-- What is found not to be concrete comprises an open type. -/
theorem comprises_open_of_concreteWithin (hclosure : c.ClosureFree i)
    (h : c.concreteWithin fuel entered i = .ok false) : ∃ k, c.Comprises i k ∧ c.IsOpen k := by
  induction fuel generalizing entered i with
  | zero => cases h
  | succ fuel ih =>
    rw [concreteWithin_succ] at h
    obtain ⟨s, hs, h⟩ := exists_of_bind_eq_ok h
    rw [slot_eq_ok_iff] at hs
    have hdemand := Shape.demand_inspected (hclosure i s .refl hs)
    cases hshape : s.shape.demand with
    | settled b =>
      rw [hshape] at h hdemand
      cases h
      exact ⟨i, .refl, s, hs, hdemand.2⟩
    | all vars =>
      rw [hshape] at h hdemand
      rw [← hdemand.1] at h
      exact comprises_open_of_child hs h fun j hstep => ih (hclosure.down hstep)
    | fields vars =>
      simp only [hshape] at h hdemand
      split at h
      · cases h
      · rw [← hdemand.1] at h
        exact comprises_open_of_child hs h fun j hstep => ih (hclosure.down hstep)
    | closure parameters result =>
      rw [hshape] at hdemand
      exact hdemand.elim

/-! ## An approval is justified -/

/-- One step down that enters none of the slots of a path. -/
def InspectsPast (c : Context) (path : List SlotId) (i j : SlotId) : Prop :=
  c.Inspects i j ∧ j ∉ path

/-- A way down from a slot that comes back to it can be cut short. -/
theorem cut_short (h : Relation.ReflTransGen (c.InspectsPast path) i k) :
    Relation.ReflTransGen (c.InspectsPast (i :: path)) i k := by
  induction h with
  | refl => exact .refl
  | @tail j k _ hstep ih =>
    by_cases hback : k = i
    · rw [hback]
    · exact ih.tail ⟨hstep.1, by simp [hback, hstep.2]⟩

/-- The path has every comprised slot whose node has been entered. -/
def Tracks (c : Context) (root : SlotId) (entered : List NodeId) (path : List SlotId) : Prop :=
  ∀ j s, c.Comprises root j → c.slot? j = some s → s.node ∈ entered → j ∈ path

theorem Tracks.enter (hdistinct : c.NodesDistinct root) (h : c.Tracks root entered path)
    (hi : c.Comprises root i) (hs : c.slot? i = some s) :
    c.Tracks root (s.node :: entered) (i :: path) := by
  intro j t hj ht hentered
  rcases List.mem_cons.mp hentered with hnode | hentered
  · rw [hdistinct j i t s hj hi ht hs hnode]
    exact List.mem_cons_self
  · exact List.mem_cons_of_mem _ (h j t hj ht hentered)

/-- There is no open type below a slot that is not open itself, if there is none below the slots
that it leads to. -/
theorem not_isOpen_of_below (hs : c.slot? i = some s) (hown : s.shape.isOpen = false)
    (hbelow : ∀ j, c.InspectsPast path i j →
      Relation.ReflTransGen (c.InspectsPast path) j k → ¬ c.IsOpen k)
    (hk : Relation.ReflTransGen (c.InspectsPast path) i k) : ¬ c.IsOpen k := by
  rcases Relation.ReflTransGen.cases_head hk with rfl | ⟨j, hstep, hjk⟩
  · intro hopen
    obtain ⟨t, ht, hopen⟩ := hopen
    rw [hs] at ht
    cases ht
    rw [hown] at hopen
    cases hopen
  · exact hbelow j hstep hjk

/-- What is found to be concrete comprises no open type, as far as one gets past the slots that
have been entered before. -/
theorem not_isOpen_of_concreteWithin (hclosure : c.ClosureFree root)
    (hdistinct : c.NodesDistinct root) (hi : c.Comprises root i)
    (htracks : c.Tracks root entered path) (hpath : i ∉ path)
    (h : c.concreteWithin fuel entered i = .ok true)
    (hk : Relation.ReflTransGen (c.InspectsPast path) i k) : ¬ c.IsOpen k := by
  induction fuel generalizing entered path i with
  | zero => cases h
  | succ fuel ih =>
    rw [concreteWithin_succ] at h
    obtain ⟨s, hs, h⟩ := exists_of_bind_eq_ok h
    rw [slot_eq_ok_iff] at hs
    have hdemand := Shape.demand_inspected (hclosure i s hi hs)
    cases hshape : s.shape.demand with
    | settled b =>
      rw [hshape] at h hdemand
      cases h
      apply not_isOpen_of_below hs hdemand.2 _ hk
      intro j hstep
      have hnone := (inspects_iff hs).mp hstep.1
      simp [hdemand.1] at hnone
    | all vars =>
      rw [hshape] at h hdemand
      rw [← hdemand.1] at h
      apply not_isOpen_of_below hs hdemand.2 _ hk
      intro j hstep hjk
      exact ih (hi.tail hstep.1) htracks hstep.2 (hstep.1.check hs h) hjk
    | fields vars =>
      simp only [hshape] at h hdemand
      split at h
      · -- a data type that is met again is on the path
        rename_i hmet
        exact absurd (htracks i s hi hs (by simpa using hmet)) hpath
      · -- the children are checked with this data type entered, so the way to them must not return
        rw [← hdemand.1] at h
        apply not_isOpen_of_below hs hdemand.2 _ (cut_short hk)
        intro j hstep hjk
        exact ih (hi.tail hstep.1) (htracks.enter hdistinct hi hs) hstep.2
          (hstep.1.check hs h) hjk
    | closure parameters result =>
      rw [hshape] at hdemand
      exact hdemand.elim

/-- A type is concrete exactly if it comprises no open type. -/
theorem concrete_iff_comprises_no_open {b : Bool} (hclosure : c.ClosureFree i)
    (hdistinct : c.NodesDistinct i) (h : c.concrete i = .ok b) :
    b = true ↔ ∀ k, c.Comprises i k → ¬ c.IsOpen k := by
  constructor
  · intro hb k hk
    rw [hb] at h
    have hpast : c.InspectsPast [] = c.Inspects := by
      funext i j
      simp [InspectsPast]
    have htracks : c.Tracks i [] [] := by
      simp [Tracks]
    rw [Comprises, ← hpast] at hk
    exact not_isOpen_of_concreteWithin hclosure hdistinct .refl htracks (by simp) h hk
  · intro hnone
    cases b with
    | true => rfl
    | false =>
      obtain ⟨k, hk, hopen⟩ := comprises_open_of_concreteWithin hclosure h
      exact absurd hopen (hnone k hk)

/-- Makes a data type with a reference to itself and a value of some shape. -/
def makeList (value : Shape) : List Command :=
  [.mint, .mint, .mint,
    .register (.new ⟨45⟩ (.adt ⟨"List", .struct, [⟨⟨45⟩, "List", .none, .struct, none,
      [⟨⟨46⟩, "next", ⟨⟨46⟩⟩, .unknown⟩, ⟨⟨47⟩, "value", ⟨⟨47⟩⟩, .unknown⟩]⟩], .none⟩)),
    .register (.new ⟨46⟩ (.reference ⟨⟨45⟩⟩ .readOnly)), .register (.new ⟨47⟩ value)]

/-- A store with such a data type. -/
def withList (value : Shape) : Context := (new Config.standard).run (makeList value)

/-- A list comprises itself, the reference to it and its value. -/
theorem withList_regular {value : Shape} (h : value = .bool ∨ value = .parameter "T" .unknown) :
    (withList value).ClosureFree ⟨19⟩ ∧ (withList value).NodesDistinct ⟨19⟩ := by
  have hi : (⟨19⟩ : SlotId) ∈ [⟨19⟩, ⟨20⟩, ⟨21⟩] := by simp
  have hclosed : ∀ k ∈ [⟨19⟩, ⟨20⟩, ⟨21⟩], (withList value).inspectedAt k ⊆ [⟨19⟩, ⟨20⟩, ⟨21⟩] := by
    rcases h with rfl | rfl <;> decide +kernel
  constructor
  · apply ClosureFree.of_closed hi hclosed
    rcases h with rfl | rfl <;> decide +kernel
  · apply NodesDistinct.of_closed hi hclosed
    rcases h with rfl | rfl <;> decide +kernel

/-- A list of truth values is concrete, and a list of values of a parameter is not. -/
theorem withList_concrete :
    ((withList .bool).concrete ⟨19⟩ = .ok true ∧
      ∀ k, (withList .bool).Comprises ⟨19⟩ k → ¬ (withList .bool).IsOpen k) ∧
    ((withList (.parameter "T" .unknown)).concrete ⟨19⟩ = .ok false ∧
      ¬ ∀ k, (withList (.parameter "T" .unknown)).Comprises ⟨19⟩ k →
        ¬ (withList (.parameter "T" .unknown)).IsOpen k) := by
  have hbool : (withList .bool).concrete ⟨19⟩ = .ok true := by decide +kernel
  have hparameter : (withList (.parameter "T" .unknown)).concrete ⟨19⟩ = .ok false := by
    decide +kernel
  constructor
  · obtain ⟨hclosure, hdistinct⟩ := withList_regular (.inl rfl)
    exact ⟨hbool, (concrete_iff_comprises_no_open hclosure hdistinct hbool).mp rfl⟩
  · obtain ⟨hclosure, hdistinct⟩ := withList_regular (.inr rfl)
    have hiff := concrete_iff_comprises_no_open hclosure hdistinct hparameter
    exact ⟨hparameter, fun hnone => Bool.false_ne_true (hiff.mpr hnone)⟩

/-! ## Another type for a node

A node that gets another type shows that type wherever it is mentioned, so the slots that a type
comprises may be quite different ones. But a way down in the new store that was not there in the
old one comes through the new type, and from there on it is a way down from that type. -/

theorem ClosureFree.below (h : c.ClosureFree i) (hij : c.Comprises i j) : c.ClosureFree j := by
  intro k s hk hs
  exact h k s (hij.trans hk) hs

theorem NodesDistinct.below (h : c.NodesDistinct i) (hij : c.Comprises i j) :
    c.NodesDistinct j := by
  intro k l s t hk hl hs ht
  exact h k l s t (hij.trans hk) (hij.trans hl) hs ht

theorem not_isOpen_of_concrete (hclosure : c.ClosureFree i) (hdistinct : c.NodesDistinct i)
    (h : c.concrete i = .ok true) (hk : c.Comprises i k) : ¬ c.IsOpen k := by
  have hpast : c.InspectsPast [] = c.Inspects := by
    funext i j
    simp [InspectsPast]
  rw [Comprises, ← hpast] at hk
  exact not_isOpen_of_concreteWithin hclosure hdistinct .refl (by simp [Tracks]) (by simp) h hk

/-- A step down in the new store is one in the old store or leads to the new type. -/
theorem inspects_of_bindType {n : NodeId} (h : (c.bindType n j).Inspects i k) :
    c.Inspects i k ∨ k = j := by
  cases hs : c.slot? i with
  | none =>
    have hs' : (c.bindType n j).slot? i = none := hs
    simp [Inspects, inspectedAt, hs'] at h
  | some s =>
    have hs' : (c.bindType n j).slot? i = some s := hs
    obtain ⟨v, hv, hk⟩ := (inspects_iff hs').mp h
    rw [typeOf?_bindType] at hk
    by_cases hn : n = v.node
    · rw [if_pos hn] at hk
      exact .inr (Option.some.inj hk).symm
    · rw [if_neg hn] at hk
      exact .inl ((inspects_iff hs).mpr ⟨v, hv, hk⟩)

/-- So is a way down, or it comes through the new type. -/
theorem comprises_of_bindType {n : NodeId} (h : (c.bindType n j).Comprises i k) :
    c.Comprises i k ∨ (c.bindType n j).Comprises i j ∧ (c.bindType n j).Comprises j k := by
  induction h with
  | refl => exact .inl .refl
  | tail hway hstep ih =>
    rcases ih with hold | ⟨hij, hjk⟩
    · rcases inspects_of_bindType hstep with hsame | rfl
      · exact .inl (hold.tail hsame)
      · exact .inr ⟨hway.tail hstep, .refl⟩
    · exact .inr ⟨hij, hjk.tail hstep⟩

/-- A type that is concrete is not found to be anything else when a node gets another type that is
concrete. -/
theorem concrete_survives_bindType {n : NodeId} (hclosure : c.ClosureFree i)
    (hdistinct : c.NodesDistinct i) (hclosure' : (c.bindType n j).ClosureFree i)
    (hdistinct' : (c.bindType n j).NodesDistinct i) (h : c.concrete i = .ok true)
    (hj : (c.bindType n j).concrete j = .ok true) :
    (c.bindType n j).concrete i ≠ .ok false := by
  intro hfalse
  obtain ⟨k, hk, hopen⟩ := comprises_open_of_concreteWithin hclosure' hfalse
  rcases comprises_of_bindType hk with hold | ⟨hij, hjk⟩
  · exact not_isOpen_of_concrete hclosure hdistinct h hold hopen
  · exact not_isOpen_of_concrete (hclosure'.below hij) (hdistinct'.below hij) hj hjk hopen

/-- The list of truth values with the list itself in place of the truth value. -/
def relinkedList : Context := (withList .bool).bindType ⟨47⟩ ⟨19⟩

/-- That puts the list on a circle of its own, and the reference to it is still concrete. -/
theorem relinkedList_stays_concrete :
    (withList .bool).concrete ⟨20⟩ = .ok true ∧ ¬ (withList .bool).Inspects ⟨19⟩ ⟨19⟩ ∧
      relinkedList.Inspects ⟨19⟩ ⟨19⟩ ∧ relinkedList.concrete ⟨19⟩ = .ok true ∧
      relinkedList.concrete ⟨20⟩ ≠ .ok false := by
  obtain ⟨hclosure, hdistinct⟩ := withList_regular (.inl rfl)
  have hdown : (withList .bool).Comprises ⟨19⟩ ⟨20⟩ := .single (by decide +kernel)
  have hi : (⟨20⟩ : SlotId) ∈ [⟨19⟩, ⟨20⟩] := by simp
  have hclosed : ∀ k ∈ [⟨19⟩, ⟨20⟩], relinkedList.inspectedAt k ⊆ [⟨19⟩, ⟨20⟩] := by
    decide +kernel
  have hclosure' : relinkedList.ClosureFree ⟨20⟩ := by
    apply ClosureFree.of_closed hi hclosed
    decide +kernel
  have hdistinct' : relinkedList.NodesDistinct ⟨20⟩ := by
    apply NodesDistinct.of_closed hi hclosed
    decide +kernel
  have hbefore : (withList .bool).concrete ⟨20⟩ = .ok true := by decide +kernel
  have hlist : relinkedList.concrete ⟨19⟩ = .ok true := by decide +kernel
  have hafter := concrete_survives_bindType (hclosure.below hdown) (hdistinct.below hdown)
    hclosure' hdistinct' hbefore hlist
  exact ⟨hbefore, by decide +kernel, by decide +kernel, hlist, hafter⟩

end Context

end TypeStore
