import TypeStore.Proofs.Concreteness

/-!
# Concreteness by structure

Where a type does not contain itself, concreteness needs neither a limit nor a list of data types
that have been entered: it is decided by recursion on the children. `plainlyConcrete` is that
recursion, and the check gives its value on every type that is no higher than the recursion limit.

The check could go wrong in two ways. It could take a data type for one that it is inside of; that
cannot happen if the data types on a way down were made for different nodes. And it could run out
of levels; a type of height `n` takes `n + 1` of them.
-/

namespace TypeStore

/-! ## Shapes -/

namespace Shape

/-- The children that the check looks at, those of a closure included. -/
def examined : Shape → List TypeVar
  | closure parameters result _ _ => [parameters, result]
  | shape => shape.inspected

/-- Concreteness of a shape, given that of its children. -/
def concreteBy (concrete : TypeVar → Bool) : Shape → Bool
  | parameter .. | projection .. => false
  | function _ params result _ => params.all (fun p => concrete p.type) && concrete result
  | functionPointer params result => params.all concrete && concrete result
  | closure parameters result _ _ => !concrete parameters && concrete result
  | tuple fields => fields.all concrete
  | array element _ => concrete element
  | slice element => concrete element
  | reference base _ => concrete base
  | rawPointer base _ => concrete base
  | adt a =>
    if a.isUnit then !a.generics.needsSubstitution
    else a.variants.all fun v => v.kind == .enum || v.fields.all fun f => concrete f.type
  | bool | char | str | never | error | dynamic | scalar _ | placeholder _ | infer .. => true

theorem all_inspectedTypes (a : Adt) (concrete : TypeVar → Bool) :
    a.inspectedTypes.all concrete
      = a.variants.all fun v => v.kind == .enum || v.fields.all fun f => concrete f.type := by
  simp [Adt.inspectedTypes, Variant.fieldTypes, bne, Function.comp_def]

/-- What the demand of a shape says about its children. Only data types are entered. -/
theorem demand_examined (shape : Shape) :
    match shape.demand with
    | .settled _ => shape.examined = []
    | .all vars => shape.kind ≠ .adt ∧ shape.examined = vars
    | .fields vars => shape.kind = .adt ∧ shape.examined = vars
    | .closure parameters result => shape.kind ≠ .adt ∧ shape.examined = [parameters, result] := by
  cases shape with
  | adt a => cases hunit : a.isUnit <;> simp [demand, examined, inspected, kind, hunit]
  | _ => simp [demand, examined, inspected, kind]

/-- What it says about concreteness. -/
theorem concreteBy_eq (concrete : TypeVar → Bool) (shape : Shape) :
    shape.concreteBy concrete = match shape.demand with
    | .settled b => b
    | .all vars => vars.all concrete
    | .fields vars => vars.all concrete
    | .closure parameters result => !concrete parameters && concrete result := by
  cases shape with
  | adt a => cases hunit : a.isUnit <;> simp [demand, concreteBy, hunit, all_inspectedTypes]
  | _ => simp [demand, concreteBy, Function.comp_def]

end Shape

namespace Context

variable {c : Context} {i j : SlotId} {s : Slot} {n fuel : Nat} {entered : List NodeId}

/-! ## The recursion -/

/-- The slots that the check looks at right below a slot. -/
def examinedAt (c : Context) (i : SlotId) : List SlotId :=
  match c.slot? i with
  | some s => s.shape.examined.filterMap fun v => c.typeOf? v.node
  | none => []

/-- One step down. -/
def Examines (c : Context) (i j : SlotId) : Prop := j ∈ c.examinedAt i

instance (c : Context) (i j : SlotId) : Decidable (c.Examines i j) :=
  inferInstanceAs (Decidable (j ∈ c.examinedAt i))

/-- Any number of steps down. -/
def Spans (c : Context) : SlotId → SlotId → Prop := Relation.ReflTransGen c.Examines

/-- No way down from a slot goes on for ever. -/
def Acyclic (c : Context) (i : SlotId) : Prop := Acc (fun j k => c.Examines k j) i

/-- Concreteness by recursion on the children and nothing else. -/
def plainlyConcrete (c : Context) (i : SlotId) (h : c.Acyclic i) : Bool :=
  match c.slot? i with
  | none => false
  | some s => s.shape.concreteBy fun v =>
    match c.typeOf? v.node with
    | none => false
    | some j => if hij : c.Examines i j then c.plainlyConcrete j (h.inv hij) else false
termination_by (⟨i, h⟩ : { k // Acc (fun j k => c.Examines k j) k })
decreasing_by exact hij

/-- No way down from a slot has more than so many steps. -/
def HeightWithin (c : Context) : Nat → SlotId → Prop
  | 0, i => c.examinedAt i = []
  | n + 1, i => ∀ j ∈ c.examinedAt i, HeightWithin c n j

instance decidableHeightWithin (c : Context) : (n : Nat) → (i : SlotId) →
    Decidable (c.HeightWithin n i)
  | 0, i => inferInstanceAs (Decidable (c.examinedAt i = []))
  | n + 1, i =>
    have := decidableHeightWithin c n
    inferInstanceAs (Decidable (∀ j ∈ c.examinedAt i, c.HeightWithin n j))

/-- Every child that is looked at has a type, and the slot of that type is there. -/
def Complete (c : Context) (i : SlotId) : Prop :=
  ∀ j, c.Spans i j → ∃ s, c.slot? j = some s ∧
    ∀ v ∈ s.shape.examined, ∃ k, c.typeOf? v.node = some k

/-- No two data types on one way down were made for the same node. -/
def AdtsDistinct (c : Context) (i : SlotId) : Prop :=
  ∀ j k s t, c.Spans i j → c.Spans j k → c.slot? j = some s → c.slot? k = some t →
    s.kind = .adt → t.kind = .adt → s.node = t.node → j = k

theorem examines_iff (hs : c.slot? i = some s) :
    c.Examines i j ↔ ∃ v ∈ s.shape.examined, c.typeOf? v.node = some j := by
  simp [Examines, examinedAt, hs]

/-- What is below a slot does not lead back to it. -/
theorem Acyclic.not_spans (h : c.Acyclic i) (hij : c.Examines i j) : ¬ c.Spans j i := by
  induction h generalizing j with
  | intro i _ ih =>
    intro hback
    rcases Relation.ReflTransGen.cases_head hback with rfl | ⟨k, hjk, hki⟩
    · exact ih j hij hij .refl
    · exact ih j hij hjk (hki.tail hij)

theorem HeightWithin.down (h : c.HeightWithin n i) (hij : c.Examines i j) :
    ∃ m, n = m + 1 ∧ c.HeightWithin m j := by
  cases n with
  | zero =>
    rw [Examines, show c.examinedAt i = [] from h] at hij
    cases hij
  | succ m => exact ⟨m, rfl, h j hij⟩

theorem HeightWithin.acyclic (h : c.HeightWithin n i) : c.Acyclic i := by
  induction n generalizing i with
  | zero =>
    refine ⟨i, fun j hij => ?_⟩
    obtain ⟨m, hm, -⟩ := h.down hij
    cases hm
  | succ n ih => exact ⟨i, fun j hij => ih (h j hij)⟩

theorem Complete.down (h : c.Complete i) (hij : c.Examines i j) : c.Complete j := by
  intro k hk
  exact h k (.head hij hk)

theorem AdtsDistinct.down (h : c.AdtsDistinct i) (hij : c.Examines i j) : c.AdtsDistinct j := by
  intro k l s t hk
  exact h k l s t (.head hij hk)

/-! ## One level of the check -/

theorem allConcrete_eq_all {check : SlotId → Except Fault Bool} {concrete : TypeVar → Bool}
    {vars : List TypeVar}
    (h : ∀ v ∈ vars, ∃ j, c.typeOf? v.node = some j ∧ check j = .ok (concrete v)) :
    c.allConcrete check vars = .ok (vars.all concrete) := by
  induction vars with
  | nil => rfl
  | cons v rest ih =>
    obtain ⟨j, hj, hcheck⟩ := h v List.mem_cons_self
    have hrest := ih fun w hw => h w (List.mem_cons_of_mem v hw)
    rw [allConcrete_cons_eq, typeOf_eq_ok_iff.mpr hj]
    show (check j >>= fun b => if b then c.allConcrete check rest else .ok false) = _
    rw [hcheck, hrest, List.all_cons]
    cases concrete v <;> rfl

/-- The data types that the check is inside of when it looks at the children of a slot. -/
def entering (s : Slot) (entered : List NodeId) : List NodeId :=
  if s.kind = .adt then s.node :: entered else entered

/-- If the children of a slot are checked right, so is the slot. -/
theorem concreteWithin_succ_eq {concrete : TypeVar → Bool} (hs : c.slot? i = some s)
    (hnew : s.kind = .adt → s.node ∉ entered)
    (hchildren : ∀ v ∈ s.shape.examined, ∃ j, c.typeOf? v.node = some j ∧
      c.concreteWithin fuel (entering s entered) j = .ok (concrete v)) :
    c.concreteWithin (fuel + 1) entered i = .ok (s.shape.concreteBy concrete) := by
  have hdemand := s.shape.demand_examined
  rw [concreteWithin_succ, slot_eq_ok_iff.mpr hs, s.shape.concreteBy_eq]
  dsimp only [bind, Except.bind]
  cases hshape : s.shape.demand with
  | settled b => rfl
  | all vars =>
    rw [hshape] at hdemand
    obtain ⟨hkind, rfl⟩ := hdemand
    rw [entering, if_neg (show ¬ s.kind = .adt from hkind)] at hchildren
    exact allConcrete_eq_all hchildren
  | fields vars =>
    rw [hshape] at hdemand
    obtain ⟨hkind, rfl⟩ := hdemand
    rw [entering, if_pos (show s.kind = .adt from hkind)] at hchildren
    dsimp only
    rw [if_neg (by simpa using hnew hkind)]
    exact allConcrete_eq_all hchildren
  | closure parameters result =>
    rw [hshape] at hdemand
    obtain ⟨hkind, hexamined⟩ := hdemand
    rw [entering, if_neg (show ¬ s.kind = .adt from hkind), hexamined] at hchildren
    have hone : ∀ v ∈ [parameters, result],
        c.allConcrete (c.concreteWithin fuel entered) [v] = .ok (concrete v) := by
      intro v hv
      rw [allConcrete_eq_all fun w hw => hchildren w (List.mem_singleton.mp hw ▸ hv)]
      simp
    dsimp only
    rw [hone parameters (by simp), hone result (by simp)]
    cases concrete parameters <;> rfl

/-! ## The whole check -/

/-- The check gives the value of the recursion, as long as no data type below has been entered. -/
theorem concreteWithin_eq_plainlyConcrete (h : c.Acyclic i) (hcomplete : c.Complete i)
    (hheight : c.HeightWithin n i) (hdistinct : c.AdtsDistinct i)
    (hentered : ∀ k t, c.Spans i k → c.slot? k = some t → t.kind = .adt → t.node ∉ entered) :
    c.concreteWithin (n + 1) entered i = .ok (c.plainlyConcrete i h) := by
  induction h generalizing n entered with
  | intro i hbelow ih =>
    have hacyclic : c.Acyclic i := ⟨i, hbelow⟩
    obtain ⟨s, hs, htyped⟩ := hcomplete i .refl
    show _ = Except.ok (c.plainlyConcrete i hacyclic)
    rw [plainlyConcrete, hs]
    refine concreteWithin_succ_eq hs (hentered i s .refl hs) fun v hv => ?_
    obtain ⟨j, hj⟩ := htyped v hv
    have hij : c.Examines i j := (examines_iff hs).mpr ⟨v, hv, hj⟩
    obtain ⟨m, rfl, hm⟩ := hheight.down hij
    refine ⟨j, hj, ?_⟩
    simp only [hj, dif_pos hij]
    refine ih j hij (hcomplete.down hij) hm (hdistinct.down hij) ?_
    intro k t hk ht hkind
    have hold := hentered k t (.head hij hk) ht hkind
    unfold entering
    split
    · -- a data type below that was made for the node of this one would be this one again
      rename_i hadt
      rw [List.mem_cons, not_or]
      refine ⟨?_, hold⟩
      intro hnode
      obtain rfl := hdistinct i k s t .refl (.head hij hk) hs ht hadt hkind hnode.symm
      exact hacyclic.not_spans hij hk
    · exact hold

/-- On a type that does not contain itself and is no higher than the recursion limit, the check
answers, and it answers what the recursion says. -/
theorem concrete_eq_plainlyConcrete (h : c.Acyclic i) (hcomplete : c.Complete i)
    (hheight : c.HeightWithin c.config.recursionLimit i) (hdistinct : c.AdtsDistinct i) :
    c.concrete i = .ok (c.plainlyConcrete i h) :=
  concreteWithin_eq_plainlyConcrete h hcomplete hheight hdistinct fun _ _ _ _ _ => by simp

/-! ## Closures within closures -/

section Closed

variable {slots : List SlotId} (hi : i ∈ slots) (hclosed : ∀ k ∈ slots, c.examinedAt k ⊆ slots)

include hi hclosed

/-- Whatever is below a slot is in every set of slots that is closed under steps down. -/
theorem Spans.mem (h : c.Spans i j) : j ∈ slots := by
  induction h with
  | refl => exact hi
  | tail _ hstep ih => exact hclosed _ ih hstep

theorem Complete.of_closed
    (h : ∀ k ∈ slots, (c.slot? k).isSome = true ∧
      ∀ s ∈ c.slot? k, ∀ v ∈ s.shape.examined, (c.typeOf? v.node).isSome = true) :
    c.Complete i := by
  intro k hk
  obtain ⟨hslot, htyped⟩ := h k (hk.mem hi hclosed)
  obtain ⟨s, hs⟩ := Option.isSome_iff_exists.mp hslot
  exact ⟨s, hs, fun v hv => Option.isSome_iff_exists.mp (htyped s hs v hv)⟩

theorem AdtsDistinct.of_closed
    (h : ∀ j ∈ slots, ∀ k ∈ slots, ∀ s ∈ c.slot? j, ∀ t ∈ c.slot? k,
      s.kind = .adt → t.kind = .adt → s.node = t.node → j = k) : c.AdtsDistinct i := by
  intro j k s t hj hjk hs ht
  have hk : c.Spans i k := hj.trans hjk
  exact h j (hj.mem hi hclosed) k (hk.mem hi hclosed) s hs t ht

end Closed

/-- Makes a closure over a tuple of a data type of which one field is again a closure, over a
tuple of a parameter. The other field is one of an enum variant and has the parameter as well. -/
def nestClosures : List Command :=
  [.mint, .mint, .mint, .mint, .mint, .mint, .mint,
    .register (.new ⟨45⟩ (.parameter "T" .unknown)),
    .register (.new ⟨46⟩ (.tuple [⟨⟨45⟩⟩])),
    .register (.new ⟨47⟩ (.adt ⟨"Done", .struct, [], .none⟩)),
    .register (.new ⟨48⟩ (.closure ⟨⟨46⟩⟩ ⟨⟨47⟩⟩ .none ∅)),
    .register (.new ⟨49⟩ (.adt ⟨"Task", .enum,
      [⟨⟨49⟩, "Run", .none, .struct, none, [⟨⟨48⟩, "body", ⟨⟨48⟩⟩, .unknown⟩]⟩,
        ⟨⟨49⟩, "Wait", .none, .enum, none, [⟨⟨45⟩, "time", ⟨⟨45⟩⟩, .unknown⟩]⟩], .none⟩)),
    .register (.new ⟨50⟩ (.tuple [⟨⟨49⟩⟩])),
    .register (.new ⟨51⟩ (.closure ⟨⟨50⟩⟩ ⟨⟨47⟩⟩ .none ∅))]

/-- A store with such a closure, whose height is the recursion limit. -/
def nestedClosures : Context :=
  (new { Config.standard with recursionLimit := 5 }).run nestClosures

/-- The inner closure is concrete because its parameters are not, and so the outer one is not. -/
theorem nestedClosures_plainlyConcrete :
    nestedClosures.HeightWithin 5 ⟨25⟩ ∧ ¬ nestedClosures.HeightWithin 4 ⟨25⟩ ∧
      nestedClosures.Complete ⟨25⟩ ∧ nestedClosures.AdtsDistinct ⟨25⟩ ∧
      ∃ h : nestedClosures.Acyclic ⟨25⟩,
        nestedClosures.concrete ⟨25⟩ = .ok (nestedClosures.plainlyConcrete ⟨25⟩ h) ∧
        nestedClosures.plainlyConcrete ⟨25⟩ h = false := by
  have hheight : nestedClosures.HeightWithin 5 ⟨25⟩ := by decide +kernel
  have hhigher : ¬ nestedClosures.HeightWithin 4 ⟨25⟩ := by decide +kernel
  let slots : List SlotId := [⟨19⟩, ⟨20⟩, ⟨21⟩, ⟨22⟩, ⟨23⟩, ⟨24⟩, ⟨25⟩]
  have hi : (⟨25⟩ : SlotId) ∈ slots := by simp [slots]
  have hclosed : ∀ k ∈ slots, nestedClosures.examinedAt k ⊆ slots := by decide +kernel
  have hcomplete : nestedClosures.Complete ⟨25⟩ := by
    apply Complete.of_closed hi hclosed
    decide +kernel
  have hdistinct : nestedClosures.AdtsDistinct ⟨25⟩ := by
    apply AdtsDistinct.of_closed hi hclosed
    decide +kernel
  have hconcrete : nestedClosures.concrete ⟨25⟩ = .ok false := by decide +kernel
  have hplain := concrete_eq_plainlyConcrete hheight.acyclic hcomplete hheight hdistinct
  refine ⟨hheight, hhigher, hcomplete, hdistinct, hheight.acyclic, hplain, ?_⟩
  rw [hconcrete] at hplain
  exact (Except.ok.inj hplain).symm

end Context

end TypeStore
