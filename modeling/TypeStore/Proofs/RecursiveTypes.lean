import TypeStore.Proofs.Limit
import TypeStore.Proofs.Resolution
import TypeStore.Proofs.StructuralConcreteness

/-!
# Recursive data types

A type may contain itself. The check for concreteness comes to an end all the same if every circle
goes through a data type, because it does not enter a data type that it is inside of. On the way
down it may come through one slot many times, but between two of these it enters a data type. So
there are at most as many stretches as there are slots, and one more, and a stretch has no slot
twice: a limit of the square of one more than the number of slots is never exceeded.
-/

namespace TypeStore.Context

variable {c : Context} {i j : SlotId} {s : Slot} {n : NodeId} {entered : List NodeId}
  {trail : List SlotId} {fuel : Nat}

/-- One step down from a slot that is no data type. -/
def PassesBy (c : Context) (i j : SlotId) : Prop :=
  c.Examines i j ∧ ∀ s, c.slot? i = some s → s.kind ≠ .adt

/-- Every circle of steps down goes through a data type. -/
def CirclesMeetAdt (c : Context) : Prop := ∀ i, ¬ Relation.TransGen c.PassesBy i i

/-! ## Ways down -/

/-- How the check came to a slot: the nodes of the data types that it is inside of, and the slots
that it has come through since it entered the last of them. -/
structure Way (c : Context) (entered : List NodeId) (trail : List SlotId) (i : SlotId) : Prop where
  entered_nodup : entered.Nodup
  entered_made : ∀ n ∈ entered, ∃ k s, c.slot? k = some s ∧ s.node = n
  trail_nodup : trail.Nodup
  trail_has : ∀ k ∈ trail, c.Has k
  trail_leads : ∀ k ∈ trail, Relation.TransGen c.PassesBy k i

namespace Way

theorem start (c : Context) (i : SlotId) : c.Way [] [] i where
  entered_nodup := List.nodup_nil
  entered_made := by simp
  trail_nodup := List.nodup_nil
  trail_has := by simp
  trail_leads := by simp

/-- Into a data type that has not been entered; a new stretch begins. -/
theorem enter (h : c.Way entered trail i) (hs : c.slot? i = some s) (hnew : s.node ∉ entered)
    (j : SlotId) : c.Way (s.node :: entered) [] j where
  entered_nodup := List.nodup_cons.mpr ⟨hnew, h.entered_nodup⟩
  entered_made := by
    intro n hn
    rcases List.mem_cons.mp hn with rfl | hn
    · exact ⟨i, s, hs, rfl⟩
    · exact h.entered_made n hn
  trail_nodup := List.nodup_nil
  trail_has := by simp
  trail_leads := by simp

/-- Through any other slot, which the stretch has not come through before. -/
theorem pass (h : c.Way entered trail i) (hcircles : c.CirclesMeetAdt) (hs : c.slot? i = some s)
    (hij : c.PassesBy i j) : c.Way entered (i :: trail) j where
  entered_nodup := h.entered_nodup
  entered_made := h.entered_made
  trail_nodup := by
    refine List.nodup_cons.mpr ⟨?_, h.trail_nodup⟩
    intro hi
    exact hcircles i (h.trail_leads i hi)
  trail_has := by
    intro k hk
    rcases List.mem_cons.mp hk with rfl | hk
    · exact index_lt_of_slot? hs
    · exact h.trail_has k hk
  trail_leads := by
    intro k hk
    rcases List.mem_cons.mp hk with rfl | hk
    · exact .single hij
    · exact (h.trail_leads k hk).tail hij

theorem length_entered_le (h : c.Way entered trail i) : entered.length ≤ c.size := by
  have hsubset : entered ⊆ c.arena.toList.map Slot.node := by
    intro n hn
    obtain ⟨k, s, hs, rfl⟩ := h.entered_made n hn
    exact List.mem_map_of_mem (Array.mem_toList_iff.mpr (Array.mem_of_getElem? hs))
  simpa [size] using h.entered_nodup.length_le_of_subset hsubset

theorem length_trail_le (h : c.Way entered trail i) : trail.length ≤ c.size := by
  have hsubset : trail ⊆ (List.range c.size).map SlotId.mk := by
    intro k hk
    exact List.mem_map.mpr ⟨k.index, List.mem_range.mpr (h.trail_has k hk), rfl⟩
  simpa using h.trail_nodup.length_le_of_subset hsubset

end Way

/-! ## Levels -/

/-- The number of levels that a way may still go down: for every node that has not been entered a
stretch through all slots, and the rest of the present one. -/
def levelsLeft (c : Context) (entered : List NodeId) (trail : List SlotId) : Nat :=
  (c.size - entered.length) * (c.size + 1) + (c.size - trail.length) + 1

theorem levelsLeft_enter (h : c.Way (n :: entered) [] j) (trail : List SlotId) :
    c.levelsLeft (n :: entered) [] < c.levelsLeft entered trail := by
  have hle := h.length_entered_le
  rw [List.length_cons] at hle
  obtain ⟨rest, hrest⟩ := Nat.exists_eq_add_of_le hle
  have hbefore : c.size - entered.length = rest + 1 := by omega
  have hafter : c.size - (entered.length + 1) = rest := by omega
  simp only [levelsLeft, List.length_cons, List.length_nil, hbefore, hafter, Nat.succ_mul]
  omega

theorem levelsLeft_pass (h : c.Way entered (i :: trail) j) :
    c.levelsLeft entered (i :: trail) < c.levelsLeft entered trail := by
  have hle := h.length_trail_le
  rw [List.length_cons] at hle
  simp only [levelsLeft, List.length_cons]
  omega

theorem levelsLeft_start (c : Context) : c.levelsLeft [] [] = (c.size + 1) ^ 2 := by
  simp only [levelsLeft, List.length_nil, Nat.sub_zero, Nat.pow_two, Nat.succ_mul, Nat.mul_succ]
  omega

/-! ## The check -/

theorem yields_allConcrete {check : SlotId → Except Fault Bool} {vars : List TypeVar}
    (h : ∀ v ∈ vars, ∀ j, c.typeOf? v.node = some j →
      Yields c.Untyped (fun _ => True) (check j)) :
    Yields c.Untyped (fun _ => True) (c.allConcrete check vars) := by
  induction vars with
  | nil => trivial
  | cons v rest ih =>
    have hrest := ih fun w hw => h w (List.mem_cons_of_mem v hw)
    rw [allConcrete_cons_eq]
    cases hj : c.typeOf? v.node with
    | none =>
      rw [typeOf_of_none hj]
      exact ⟨v.node, rfl, hj⟩
    | some j =>
      rw [typeOf_eq_ok_iff.mpr hj]
      refine (h v List.mem_cons_self j hj).bind fun b _ => ?_
      split
      · exact hrest
      · trivial

/-- With as many levels as may be left, the check ends with an answer or at a node that has no
type. -/
theorem yields_concreteWithin (htypes : c.TypesExist) (hcircles : c.CirclesMeetAdt)
    (hi : c.Has i) (hway : c.Way entered trail i) (hfuel : c.levelsLeft entered trail ≤ fuel) :
    Yields c.Untyped (fun _ => True) (c.concreteWithin fuel entered i) := by
  induction fuel generalizing i entered trail with
  | zero => exact absurd hfuel (by simp [levelsLeft])
  | succ fuel ih =>
    rw [concreteWithin_succ]
    refine (yields_slot hi).bind fun s hs => ?_
    have hdemand := s.shape.demand_examined
    -- the children of a slot that is no data type
    have hpass : s.kind ≠ .adt → ∀ v ∈ s.shape.examined, ∀ j, c.typeOf? v.node = some j →
        Yields c.Untyped (fun _ => True) (c.concreteWithin fuel entered j) := by
      intro hkind v hv j hj
      have hij : c.PassesBy i j := by
        refine ⟨(examines_iff hs).mpr ⟨v, hv, hj⟩, ?_⟩
        intro t ht
        rw [hs] at ht
        cases ht
        exact hkind
      have hnext := hway.pass hcircles hs hij
      have hless := levelsLeft_pass hnext
      exact ih (htypes _ _ hj) hnext (by omega)
    cases hshape : s.shape.demand with
    | settled b => trivial
    | all vars =>
      rw [hshape] at hdemand
      obtain ⟨hkind, rfl⟩ := hdemand
      exact yields_allConcrete (hpass hkind)
    | fields vars =>
      dsimp only
      split
      · trivial
      · rename_i hnew
        refine yields_allConcrete fun v _ j hj => ?_
        have hnext := hway.enter hs (by simpa using hnew) j
        have hless := levelsLeft_enter hnext trail
        exact ih (htypes _ _ hj) hnext (by omega)
    | closure parameters result =>
      rw [hshape] at hdemand
      obtain ⟨hkind, hexamined⟩ := hdemand
      have hone : ∀ v ∈ [parameters, result], Yields c.Untyped (fun _ => True)
          (c.allConcrete (c.concreteWithin fuel entered) [v]) := by
        intro v hv
        refine yields_allConcrete fun w hw => hpass hkind w ?_
        rw [hexamined, List.mem_singleton.mp hw]
        exact hv
      refine (hone parameters (by simp)).bind fun b _ => ?_
      split
      · trivial
      · exact hone result (by simp)

theorem not_hitsLimit_of_yields {x : Except Fault Bool}
    (h : Yields c.Untyped (fun _ => True) x) : ¬ HitsLimit x := by
  rintro ⟨m, l, rfl⟩
  obtain ⟨n, hn, -⟩ := h
  cases hn

/-- Where every circle goes through a data type, a limit of the square of one more than the number
of slots is never exceeded: the check answers, or it meets a node that has no type. -/
theorem recursive_types_stay_within_limit (htypes : c.TypesExist) (hcircles : c.CirclesMeetAdt)
    (hlimit : (c.size + 1) ^ 2 ≤ c.config.recursionLimit) (i : SlotId) :
    ¬ HitsLimit (c.concrete i) ∧
      (c.Has i → (∃ b, c.concrete i = .ok b) ∨
        ∃ n, c.typeOf? n = none ∧ c.concrete i = .error (.error (.unknownType n))) := by
  by_cases hi : c.Has i
  · have hfuel : c.levelsLeft [] [] ≤ c.config.recursionLimit + 1 := by
      rw [levelsLeft_start]
      omega
    have hyields := yields_concreteWithin htypes hcircles hi (.start c i) hfuel
    rw [← concrete] at hyields
    refine ⟨not_hitsLimit_of_yields hyields, fun _ => ?_⟩
    cases hrun : c.concrete i with
    | ok b => exact .inl ⟨b, rfl⟩
    | error f =>
      rw [hrun] at hyields
      obtain ⟨n, rfl, hn⟩ := hyields
      exact .inr ⟨n, hn, rfl⟩
  · -- a slot that is not there is not examined at all
    have hslot : c.slot i = .error (.missingSlot i) := by
      rw [slot, slot?, Array.getElem?_eq_none (Nat.not_lt.mp hi)]
    rw [concrete, concreteWithin_of_error hslot]
    refine ⟨?_, fun h => absurd h hi⟩
    rintro ⟨m, l, hfault⟩
    cases hfault

/-! ## Two data types with one field in common -/

/-- Steps that go to earlier slots only make no circle. -/
theorem CirclesMeetAdt.of_earlier
    (h : ∀ k < c.size, (∀ s ∈ c.slot? ⟨k⟩, s.kind ≠ .adt) →
      ∀ j ∈ c.examinedAt ⟨k⟩, j.index < k) : c.CirclesMeetAdt := by
  have hstep : ∀ i j, c.PassesBy i j → j.index < i.index := by
    intro i j hij
    have hi : i.index < c.size := by
      by_contra hmissing
      have hslot : c.slot? i = none := Array.getElem?_eq_none (Nat.not_lt.mp hmissing)
      simp [PassesBy, Examines, examinedAt, hslot] at hij
    exact h i.index hi hij.2 j hij.1
  intro i hcircle
  have hearlier : ∀ j, Relation.TransGen c.PassesBy i j → j.index < i.index := by
    intro j hij
    induction hij with
    | single hone => exact hstep _ _ hone
    | tail _ hone ih => exact Nat.lt_trans (hstep _ _ hone) ih
  exact Nat.lt_irrefl _ (hearlier i hcircle)

/-- The declaration of a struct with one field. -/
def structOf (node : NodeId) (name : String) (field : TypeVar) : Shape :=
  .adt ⟨name, .struct,
    [⟨node, name, .none, .struct, none, [⟨field.node, "pair", field, .unknown⟩]⟩], .none⟩

/-- Makes two data types that have the pair of the two as a field. -/
def linkTypes : List Command :=
  [.mint, .mint, .mint, .register (.new ⟨45⟩ (structOf ⟨45⟩ "Left" ⟨⟨47⟩⟩)),
    .register (.new ⟨46⟩ (structOf ⟨46⟩ "Right" ⟨⟨47⟩⟩)),
    .register (.new ⟨47⟩ (.tuple [⟨⟨45⟩⟩, ⟨⟨46⟩⟩]))]

/-- A store with two such types, whose recursion limit is just what its size calls for. -/
def linkedTypes : Context := (new { Config.standard with recursionLimit := 529 }).run linkTypes

theorem reached_linkedTypes : linkedTypes.Reached := by
  refine ⟨{ Config.standard with recursionLimit := 529 }, linkTypes, ?_,
    ⟨trivial, ?_, trivial, ?_, trivial, ?_, show Slot.Below _ _ from ?_, ?_,
      show Slot.Below _ _ from ?_, ?_, show Slot.Below _ _ from ?_, ?_, trivial⟩, rfl⟩
  all_goals decide +kernel

/-- The pair is on two circles, and the check comes through it again before it meets a data type
for the second time. -/
theorem linkedTypes_stay_within_limit :
    linkedTypes.Examines ⟨21⟩ ⟨19⟩ ∧ linkedTypes.Examines ⟨19⟩ ⟨21⟩ ∧
      linkedTypes.Examines ⟨21⟩ ⟨20⟩ ∧ linkedTypes.Examines ⟨20⟩ ⟨21⟩ ∧
      linkedTypes.CirclesMeetAdt ∧ (linkedTypes.size + 1) ^ 2 = linkedTypes.config.recursionLimit ∧
      ¬ HitsLimit (linkedTypes.concrete ⟨21⟩) := by
  have hcircles : linkedTypes.CirclesMeetAdt := by
    apply CirclesMeetAdt.of_earlier
    decide +kernel
  have hlimit : (linkedTypes.size + 1) ^ 2 = linkedTypes.config.recursionLimit := by
    decide +kernel
  have hends := recursive_types_stay_within_limit
    (Reached.wellFormed reached_linkedTypes).typesExist hcircles (Nat.le_of_eq hlimit) ⟨21⟩
  refine ⟨?_, ?_, ?_, ?_, hcircles, hlimit, hends.1⟩
  all_goals decide +kernel

end TypeStore.Context
