import Std.Data.TreeMap

/-!
Names of program positions: 32-bit node ids, crate ids, and the supply that mints node ids.

Ids are machine words, so a supply that has handed out the largest id goes on from zero.
-/

namespace TypeStore

/-- The identity of one position in a program. Types, facts and items are keyed by it. -/
structure NodeId where
  raw : UInt32
deriving DecidableEq, Repr, Inhabited

namespace NodeId

/-- The short form used inside messages. -/
def text (n : NodeId) : String :=
  "#" ++ toString n.raw.toNat

/-- The long form, which names the type as well. -/
def debugText (n : NodeId) : String :=
  "NodeId(" ++ toString n.raw.toNat ++ ")"

instance : Ord NodeId where
  compare a b := compare a.raw b.raw

theorem compare_eq (a b : NodeId) : compare a b = compare a.raw b.raw := rfl

instance : Std.TransOrd NodeId where
  eq_swap {a b} := @Std.OrientedCmp.eq_swap UInt32 compare _ a.raw b.raw
  isLE_trans {a b c} := @Std.TransCmp.isLE_trans UInt32 compare _ a.raw b.raw c.raw

instance : Std.LawfulEqOrd NodeId where
  compare_self {a} := @Std.ReflCmp.compare_self UInt32 compare _ a.raw
  eq_of_compare {a b} h := by
    have hraw : a.raw = b.raw := @Std.LawfulEqCmp.eq_of_compare UInt32 compare _ a.raw b.raw h
    cases a
    cases b
    exact congrArg NodeId.mk hraw

end NodeId

/-- The identity of one compilation unit. The largest word stands for a unit that is not known. -/
structure CrateId where
  raw : UInt32
deriving DecidableEq, Repr

namespace CrateId

/-- The unit assumed before the current one is known. -/
def unknown : CrateId := ⟨0xFFFFFFFF⟩

instance : Inhabited CrateId := ⟨unknown⟩

def isUnknown (c : CrateId) : Bool := c == unknown

/-- The long form, in which the unknown unit is spelled out. -/
def debugText (c : CrateId) : String :=
  if c.isUnknown then "CrateNum(unknown)" else "CrateNum(" ++ toString c.raw.toNat ++ ")"

instance : Ord CrateId where
  compare a b := compare a.raw b.raw

end CrateId

/-- A source of node ids; `next` is the id it hands out next. -/
structure NodeSupply where
  next : NodeId
deriving DecidableEq, Repr

namespace NodeSupply

def startingAt (first : NodeId) : NodeSupply := ⟨first⟩

/-- The id the next call of `fresh` hands out. -/
def peek (s : NodeSupply) : NodeId := s.next

/-- Hands out one id and moves on to its successor, zero after the largest word. -/
def fresh (s : NodeSupply) : NodeId × NodeSupply :=
  (s.next, ⟨⟨s.next.raw + 1⟩⟩)

/-- Hands out `count` ids in a row. -/
def take : Nat → NodeSupply → List NodeId × NodeSupply
  | 0, s => ([], s)
  | count + 1, s =>
    let (id, s) := s.fresh
    let (ids, s) := take count s
    (id :: ids, s)

end NodeSupply

end TypeStore
