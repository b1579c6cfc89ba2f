import TypeStore.Node

/-!
# Tables and sets of nodes

`NodeMap` is the table every fact about a node lives in; its view is `m[n]?`, and one lemma says
what a write does to that view. `NodeSet` is a set of nodes listed in ascending order, so two sets
with the same members are equal.
-/

namespace TypeStore

/-- A table keyed by node, listed in ascending order of its keys. -/
abbrev NodeMap (α : Type) := Std.TreeMap NodeId α

namespace NodeMap

variable {α : Type}

/-- After a write the key reads as the new value and every other key as before. -/
theorem getElem?_insert_eq (m : NodeMap α) (n k : NodeId) (a : α) :
    (m.insert n a)[k]? = if n = k then some a else m[k]? := by
  rw [Std.TreeMap.getElem?_insert]
  simp only [Std.LawfulEqCmp.compare_eq_iff_eq]

/-- The entries whose keys are at least `lower` and below `upper`, in ascending order. -/
def between (m : NodeMap α) (lower upper : NodeId) : List (NodeId × α) :=
  m.toList.filter fun entry => lower.raw ≤ entry.1.raw && entry.1.raw < upper.raw

end NodeMap

/-! ## Sets -/

/-- A finite set of nodes, listed in strictly ascending order. -/
structure NodeSet where
  toList : List NodeId
  ascending : toList.Pairwise fun a b => a.raw < b.raw
deriving DecidableEq

namespace NodeSet

/-- Puts a node at its place in an ascending list, unless it is there already. -/
def place (n : NodeId) : List NodeId → List NodeId
  | [] => [n]
  | m :: rest =>
    if n.raw < m.raw then n :: m :: rest
    else if n = m then m :: rest
    else m :: place n rest

theorem mem_place {n k : NodeId} {l : List NodeId} : k ∈ place n l ↔ k = n ∨ k ∈ l := by
  induction l with
  | nil => simp [place]
  | cons m rest ih =>
    simp only [place]
    split
    · simp
    · split
      · rename_i h
        subst h
        simp
      · simp [ih, or_left_comm]

theorem pairwise_place {n : NodeId} {l : List NodeId}
    (h : l.Pairwise fun a b => a.raw < b.raw) :
    (place n l).Pairwise fun a b => a.raw < b.raw := by
  induction l with
  | nil => simp [place]
  | cons m rest ih =>
    have hm := List.pairwise_cons.mp h
    simp only [place]
    split
    · rename_i hlt
      refine List.pairwise_cons.mpr ⟨fun k hk => ?_, h⟩
      rcases List.mem_cons.mp hk with rfl | hk
      · exact hlt
      · exact UInt32.lt_trans hlt (hm.1 k hk)
    · split
      · exact h
      · rename_i hge hne
        refine List.pairwise_cons.mpr ⟨fun k hk => ?_, ih hm.2⟩
        rcases mem_place.mp hk with rfl | hk
        · rcases UInt32.lt_or_eq_of_le (UInt32.not_lt.mp hge) with hlt | heq
          · exact hlt
          · exact absurd (congrArg NodeId.mk heq.symm) hne
        · exact hm.1 k hk

/-- The set without members. -/
def empty : NodeSet := ⟨[], List.Pairwise.nil⟩

instance : EmptyCollection NodeSet := ⟨empty⟩

instance : Inhabited NodeSet := ⟨empty⟩

instance : Membership NodeId NodeSet := ⟨fun s n => n ∈ s.toList⟩

/-- Adds one node. -/
def insert (s : NodeSet) (n : NodeId) : NodeSet :=
  ⟨place n s.toList, pairwise_place s.ascending⟩

/-- Adds every node of a list. -/
def insertAll (s : NodeSet) (ns : List NodeId) : NodeSet :=
  ns.foldl insert s

/-- The set of the nodes of a list. -/
def ofList (ns : List NodeId) : NodeSet :=
  insertAll ∅ ns

theorem mem_def {s : NodeSet} {n : NodeId} : n ∈ s ↔ n ∈ s.toList := Iff.rfl

@[simp]
theorem mem_insert {s : NodeSet} {n k : NodeId} : k ∈ s.insert n ↔ k = n ∨ k ∈ s :=
  mem_place

end NodeSet

end TypeStore
