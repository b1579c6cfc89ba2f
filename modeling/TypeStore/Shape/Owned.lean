import TypeStore.Shape

/-!
# Owned children

Reading the owned children of a shape and putting others in their place fit together: what is put
in is what is read, and putting back what was read changes nothing. A replacement has to have as
many children as there were.
-/

namespace TypeStore

/-! ## Lists -/

private theorem zipWith_snd {α β : Type} {l : List α} {m : List β} (h : m.length = l.length) :
    l.zipWith (fun _ b => b) m = m := by
  induction l generalizing m with
  | nil => exact (List.length_eq_zero_iff.mp h).symm
  | cons a l ih =>
    cases m with
    | nil => simp at h
    | cons b m => rw [List.zipWith_cons_cons, ih (by simpa using h)]

private theorem zipWith_self {α β : Type} {f : α → β} {g : α → β → α} {l : List α}
    (h : ∀ a, g a (f a) = a) : l.zipWith g (l.map f) = l := by
  induction l with
  | nil => rfl
  | cons a l ih => rw [List.map_cons, List.zipWith_cons_cons, h, ih]

private theorem zipWith_again {α β : Type} {f : α → β → α} (hf : ∀ a b b', f (f a b) b' = f a b')
    {l : List α} {m : List β} (h : l.length ≤ m.length) (m' : List β) :
    (l.zipWith f m).zipWith f m' = l.zipWith f m' := by
  induction l generalizing m m' with
  | nil => simp
  | cons a l ih =>
    cases m with
    | nil => simp at h
    | cons b m =>
      cases m' with
      | nil => simp
      | cons b' m' =>
        simp only [List.zipWith_cons_cons, hf]
        rw [ih (by simpa using h)]

/-! ## Variants and data types -/

namespace Variant

theorem fieldTypes_withFieldTypes {v : Variant} {types : List TypeVar}
    (h : types.length = v.fields.length) : (v.withFieldTypes types).fieldTypes = types := by
  unfold fieldTypes withFieldTypes
  rw [List.map_zipWith]
  exact zipWith_snd h

theorem withFieldTypes_fieldTypes (v : Variant) : v.withFieldTypes v.fieldTypes = v := by
  unfold fieldTypes withFieldTypes
  rw [zipWith_self fun _ => rfl]

theorem withFieldTypes_withFieldTypes {v : Variant} {types : List TypeVar}
    (h : types.length = v.fields.length) (types' : List TypeVar) :
    (v.withFieldTypes types).withFieldTypes types' = v.withFieldTypes types' := by
  have hagain := zipWith_again (f := fun (f : Field) type => { f with type })
    (fun _ _ _ => rfl) (Nat.le_of_eq h.symm) types'
  exact congrArg (fun fields => { v with fields }) hagain

theorem length_fields_withFieldTypes {v : Variant} {types : List TypeVar}
    (h : types.length = v.fields.length) :
    (v.withFieldTypes types).fields.length = v.fields.length := by
  rw [withFieldTypes, List.length_zipWith, h, Nat.min_self]

theorem length_fieldTypes (v : Variant) : v.fieldTypes.length = v.fields.length :=
  List.length_map _

end Variant

namespace Adt

theorem fieldTypes_refill {vs : List Variant} {types : List TypeVar}
    (h : types.length = (vs.flatMap Variant.fieldTypes).length) :
    (refill vs types).flatMap Variant.fieldTypes = types := by
  induction vs generalizing types with
  | nil => exact (List.length_eq_zero_iff.mp h).symm
  | cons v vs ih =>
    simp only [List.flatMap_cons, List.length_append, Variant.length_fieldTypes] at h
    rw [refill, List.flatMap_cons, ih (by rw [List.length_drop]; omega),
      Variant.fieldTypes_withFieldTypes (by rw [List.length_take]; omega), List.take_append_drop]

theorem refill_fieldTypes (vs : List Variant) :
    refill vs (vs.flatMap Variant.fieldTypes) = vs := by
  induction vs with
  | nil => rfl
  | cons v vs ih =>
    rw [refill, List.flatMap_cons, ← Variant.length_fieldTypes, List.take_left, List.drop_left,
      Variant.withFieldTypes_fieldTypes, ih]

theorem refill_refill {vs : List Variant} {types : List TypeVar}
    (h : types.length = (vs.flatMap Variant.fieldTypes).length) (types' : List TypeVar) :
    refill (refill vs types) types' = refill vs types' := by
  induction vs generalizing types types' with
  | nil => rfl
  | cons v vs ih =>
    simp only [List.flatMap_cons, List.length_append, Variant.length_fieldTypes] at h
    have htake : (types.take v.fields.length).length = v.fields.length := by
      rw [List.length_take]
      omega
    rw [refill, refill, Variant.length_fields_withFieldTypes htake,
      Variant.withFieldTypes_withFieldTypes htake, ih (by rw [List.length_drop]; omega)]
    rfl

end Adt

/-! ## Shapes -/

namespace Shape

/-- What is put in is what is read. -/
theorem owned_withOwned {s : Shape} {vars : List TypeVar} (h : vars.length = s.owned.length) :
    (s.withOwned vars).owned = vars := by
  cases s with
  | function name params result generics =>
    simp only [owned, List.length_append, List.length_map, List.length_singleton] at h
    obtain ⟨last, hlast⟩ : ∃ last, vars.drop params.length = [last] :=
      List.length_eq_one_iff.mp (by rw [List.length_drop]; omega)
    have hmap : (params.zipWith (fun p type => { p with type }) vars).map Param.type
        = vars.take params.length := by
      rw [List.map_zipWith, List.zipWith_eq_zipWith_take_min]
      simp only [h, Nat.min_eq_left (Nat.le_succ _), List.take_length]
      exact zipWith_snd (by rw [List.length_take]; omega)
    simp only [withOwned, owned, hmap, hlast, List.headD_cons]
    rw [← hlast, List.take_append_drop]
  | closure parameters result generics captures =>
    obtain ⟨v, rfl⟩ := List.length_eq_one_iff.mp h
    rfl
  | adt a => exact Adt.fieldTypes_refill h
  | tuple fields => rfl
  | _ => exact (List.length_eq_zero_iff.mp h).symm

/-- Putting back what was read changes nothing. -/
theorem withOwned_owned (s : Shape) : s.withOwned s.owned = s := by
  cases s with
  | function name params result generics =>
    have hparams : params.zipWith (fun p type => { p with type })
        (params.map Param.type ++ [result]) = params := by
      rw [List.zipWith_eq_zipWith_take_min]
      simp only [List.length_append, List.length_map, Nat.min_eq_left (Nat.le_add_right _ _),
        List.take_length]
      rw [List.take_left' (List.length_map _)]
      exact zipWith_self fun _ => rfl
    simp only [withOwned, owned, hparams, List.drop_left' (List.length_map _), List.headD_cons]
  | adt a => simp only [withOwned, owned, Adt.withFieldTypes, Adt.fieldTypes, Adt.refill_fieldTypes]
  | _ => rfl

/-- Of two replacements the later one counts. -/
theorem withOwned_withOwned {s : Shape} {vars vars' : List TypeVar}
    (h : vars.length = s.owned.length) (h' : vars'.length = s.owned.length) :
    (s.withOwned vars).withOwned vars' = s.withOwned vars' := by
  cases s with
  | function name params result generics =>
    simp only [owned, List.length_append, List.length_map, List.length_singleton] at h h'
    obtain ⟨last, hlast⟩ : ∃ last, vars'.drop params.length = [last] :=
      List.length_eq_one_iff.mp (by rw [List.length_drop]; omega)
    have hparams : (params.zipWith (fun p type => { p with type }) vars).length
        = params.length := by
      rw [List.length_zipWith]
      omega
    have hagain := zipWith_again (f := fun (p : Param) type => { p with type })
      (fun _ _ _ => rfl) (l := params) (m := vars) (by omega) vars'
    simp only [withOwned, hparams, hlast, List.headD_cons, hagain]
  | closure parameters result generics captures =>
    obtain ⟨v, rfl⟩ := List.length_eq_one_iff.mp h
    obtain ⟨v', rfl⟩ := List.length_eq_one_iff.mp h'
    rfl
  | adt a =>
    simp only [withOwned, Adt.withFieldTypes]
    rw [Adt.refill_refill h]
  | _ => rfl

/-- Other children do not make another kind. -/
theorem kind_withOwned (s : Shape) (vars : List TypeVar) : (s.withOwned vars).kind = s.kind := by
  cases s <;> rfl

end Shape

end TypeStore
