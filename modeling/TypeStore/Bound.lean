import TypeStore.Path

/-!
# Trait bounds

The bounds on a type are kept in the order in which they came, one for each bound id: the first
bound with an id stays, later ones are dropped.
-/

namespace TypeStore

/-- One bound: its own id, the path of the trait and where the bound was written. -/
structure Bound where
  id : NodeId
  path : Path
  location : Location
deriving DecidableEq, Repr

/-- Bounds in order of arrival, with no id twice. -/
structure Bounds where
  toList : List Bound
  distinct : (toList.map Bound.id).Nodup
deriving DecidableEq, Repr

namespace Bounds

def empty : Bounds := ⟨[], List.nodup_nil⟩

instance : EmptyCollection Bounds := ⟨empty⟩

def size (bs : Bounds) : Nat := bs.toList.length

def isEmpty (bs : Bounds) : Bool := bs.toList.isEmpty

/-- Whether a bound with this id is present. -/
def hasId (bs : Bounds) (id : NodeId) : Bool := bs.toList.any fun b => b.id == id

theorem hasId_iff {bs : Bounds} {id : NodeId} :
    bs.hasId id = true ↔ id ∈ bs.toList.map Bound.id := by
  simp [hasId]

/-- Adds a bound at the end unless its id is present. -/
def add (bs : Bounds) (b : Bound) : Bounds :=
  if h : bs.hasId b.id then bs
  else ⟨bs.toList ++ [b], by
    rw [hasId_iff] at h
    rw [List.map_append, List.nodup_append]
    refine ⟨bs.distinct, by simp, ?_⟩
    intro x hx y hy heq
    simp only [List.map_cons, List.map_nil, List.mem_singleton] at hy
    exact h (hy ▸ heq ▸ hx)⟩

/-- Adds bounds one after the other. -/
def addAll (bs : Bounds) (new : List Bound) : Bounds := new.foldl add bs

/-- The bounds offered by a list. -/
def ofList (bs : List Bound) : Bounds := addAll ∅ bs

@[ext]
theorem ext {bs cs : Bounds} (h : bs.toList = cs.toList) : bs = cs := by
  cases bs
  cases cs
  cases h
  rfl

theorem add_of_mem {bs : Bounds} {b : Bound} (h : b.id ∈ bs.toList.map Bound.id) :
    bs.add b = bs :=
  dif_pos (hasId_iff.mpr h)

theorem toList_add_of_not_mem {bs : Bounds} {b : Bound} (h : b.id ∉ bs.toList.map Bound.id) :
    (bs.add b).toList = bs.toList ++ [b] := by
  rw [add, dif_neg (mt hasId_iff.mp h)]

/-- A bound that is offered may be added behind those that are kept. -/
theorem prefix_add (bs : Bounds) (b : Bound) : bs.toList <+: (bs.add b).toList := by
  by_cases h : b.id ∈ bs.toList.map Bound.id
  · simp [add_of_mem h]
  · rw [toList_add_of_not_mem h]
    exact List.prefix_append _ _

theorem prefix_addAll (bs : Bounds) (new : List Bound) :
    bs.toList <+: (bs.addAll new).toList := by
  induction new generalizing bs with
  | nil => exact List.prefix_refl _
  | cons b rest ih => exact (prefix_add bs b).trans (ih (bs.add b))

/-- Offering bounds with ids that are new, to bounds that are kept already, adds them all. -/
theorem toList_addAll_of_nodup {bs : Bounds} {new : List Bound}
    (h : ((bs.toList ++ new).map Bound.id).Nodup) :
    (bs.addAll new).toList = bs.toList ++ new := by
  induction new generalizing bs with
  | nil => exact (List.append_nil _).symm
  | cons b rest ih =>
    have hb : b.id ∉ bs.toList.map Bound.id := by
      intro hmem
      rw [List.map_append, List.nodup_append] at h
      exact h.2.2 _ hmem _ (by simp) rfl
    have hadd := toList_add_of_not_mem hb
    show ((bs.add b).addAll rest).toList = _
    rw [ih (by rw [hadd]; simpa using h), hadd]
    simp

/-- Bounds that are offered again as they are come out as they are. -/
@[simp]
theorem ofList_toList (bs : Bounds) : ofList bs.toList = bs :=
  ext (toList_addAll_of_nodup bs.distinct)

end Bounds

end TypeStore
