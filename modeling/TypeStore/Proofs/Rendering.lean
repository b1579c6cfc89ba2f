import Mathlib.Data.Finset.Card
import Mathlib.Data.List.Forall2
import TypeStore.Context.Render

/-!
# Writing types

The text of a type is written with a bound on the depth. Two facts take the bound out of later
arguments. A writer that comes to an end within one depth writes the same within any greater
depth. And `render` goes deep enough: if any depth lets a writer come to an end, the depth that
`render` uses does, so it answers `endlessText` for types without a finite text only.

The buffer plays no part in what is written: writing behind a text puts that text in front.
-/

namespace TypeStore

namespace Writing

/-- What a writer leaves when its buffer has a text in front. -/
def behind (p : String) : EStateM.Result Fault String Unit → EStateM.Result Fault String Unit
  | .ok a s => .ok a (p ++ s)
  | .error f s => .error f (p ++ s)

/-- A writer ran out of levels. -/
def Endless (r : EStateM.Result Fault String Unit) : Prop :=
  ∃ i s, r = .error (.endlessText i) s

instance (r : EStateM.Result Fault String Unit) : Decidable (Endless r) :=
  match r with
  | .ok _ _ => isFalse fun ⟨_, _, h⟩ => nomatch h
  | .error (.endlessText i) s => isTrue ⟨i, s, rfl⟩
  | .error (.missingSlot _) _ => isFalse fun ⟨_, _, h⟩ => nomatch h
  | .error (.error _) _ => isFalse fun ⟨_, _, h⟩ => nomatch h

theorem endless_behind {p : String} {r : EStateM.Result Fault String Unit} :
    Endless (behind p r) ↔ Endless r := by
  constructor
  · rintro ⟨i, s, h⟩
    cases r with
    | ok a t => cases h
    | error f t =>
      cases h
      exact ⟨i, t, rfl⟩
  · rintro ⟨i, s, rfl⟩
    exact ⟨i, p ++ s, rfl⟩

/-- Goes on with another writer if the first one succeeded. -/
def thenWrite (r : EStateM.Result Fault String Unit) (next : Writing Unit) :
    EStateM.Result Fault String Unit :=
  match r with
  | .ok _ b => next b
  | .error f b => .error f b

theorem not_endless_of_thenWrite {r : EStateM.Result Fault String Unit} {next : Writing Unit}
    (h : ¬ Endless (thenWrite r next)) : ¬ Endless r := by
  rintro ⟨i, s, rfl⟩
  exact h ⟨i, s, rfl⟩

end Writing

namespace Context

open Writing (behind Endless thenWrite)

section Pieces

variable {c : Context} {write : SlotId → Writing Unit}

theorem writePieces_text (s : String) (rest : List Piece) (b : String) :
    c.writePieces write (.text s :: rest) b = c.writePieces write rest (b ++ s) := rfl

theorem writePieces_child_of_error {v : TypeVar} {f : Fault} (h : c.typeOf v.node = .error f)
    (rest : List Piece) (b : String) :
    c.writePieces write (.child v :: rest) b = .error f b := by
  rw [writePieces, h]
  rfl

theorem writePieces_child_of_ok {v : TypeVar} {i : SlotId} (h : c.typeOf v.node = .ok i)
    (rest : List Piece) (b : String) :
    c.writePieces write (.child v :: rest) b
      = thenWrite (write i b) (c.writePieces write rest) := by
  rw [writePieces, h]
  show EStateM.bind (write i) (fun _ => c.writePieces write rest) b = _
  rw [EStateM.bind]
  cases write i b <;> rfl

theorem writeSlot_succ_of_error {fuel : Nat} {i : SlotId} {f : Fault}
    (h : c.layoutOf i = .error f) (b : String) : c.writeSlot (fuel + 1) i b = .error f b := by
  rw [writeSlot, h]
  rfl

theorem writeSlot_succ_of_ok {fuel : Nat} {i : SlotId} {pieces : List Piece}
    (h : c.layoutOf i = .ok pieces) (b : String) :
    c.writeSlot (fuel + 1) i b = c.writePieces (c.writeSlot fuel) pieces b := by
  rw [writeSlot, h]
  rfl

end Pieces

/-! ## Buffers -/

theorem writePieces_behind {c : Context} {write : SlotId → Writing Unit}
    (hwrite : ∀ i p b, write i (p ++ b) = behind p (write i b)) (pieces : List Piece)
    (p b : String) :
    c.writePieces write pieces (p ++ b) = behind p (c.writePieces write pieces b) := by
  induction pieces generalizing b with
  | nil => rfl
  | cons piece rest ih =>
    cases piece with
    | text s => rw [writePieces_text, writePieces_text, String.append_assoc, ih]
    | child v =>
      cases htype : c.typeOf v.node with
      | error f =>
        rw [writePieces_child_of_error htype, writePieces_child_of_error htype]
        rfl
      | ok i =>
        rw [writePieces_child_of_ok htype, writePieces_child_of_ok htype, hwrite]
        cases write i b with
        | ok a b' => exact ih b'
        | error f b' => rfl

theorem writeSlot_behind (c : Context) (fuel : Nat) (i : SlotId) (p b : String) :
    c.writeSlot fuel i (p ++ b) = behind p (c.writeSlot fuel i b) := by
  induction fuel generalizing i p b with
  | zero => rfl
  | succ fuel ih =>
    cases hlayout : c.layoutOf i with
    | error f =>
      rw [writeSlot_succ_of_error hlayout, writeSlot_succ_of_error hlayout]
      rfl
    | ok pieces =>
      rw [writeSlot_succ_of_ok hlayout, writeSlot_succ_of_ok hlayout]
      exact writePieces_behind ih pieces p b

/-! ## Two writers side by side -/

/-- Two children are written alike unless the first writer runs out of levels. -/
inductive PieceMatch (c c' : Context) (write write' : SlotId → Writing Unit) :
    Piece → Piece → Prop
  | text (s : String) : PieceMatch c c' write write' (.text s) (.text s)
  | unknown {v w : TypeVar} {f : Fault} (left : c.typeOf v.node = .error f)
      (right : c'.typeOf w.node = .error f) : PieceMatch c c' write write' (.child v) (.child w)
  | known {v w : TypeVar} {i j : SlotId} (left : c.typeOf v.node = .ok i)
      (right : c'.typeOf w.node = .ok j)
      (same : ∀ b, ¬ Endless (write i b) → write' j b = write i b) :
      PieceMatch c c' write write' (.child v) (.child w)

theorem writePieces_match {c c' : Context} {write write' : SlotId → Writing Unit}
    {pieces pieces' : List Piece}
    (h : List.Forall₂ (PieceMatch c c' write write') pieces pieces') (b : String)
    (hend : ¬ Endless (c.writePieces write pieces b)) :
    c'.writePieces write' pieces' b = c.writePieces write pieces b := by
  induction h generalizing b with
  | nil => rfl
  | cons head _ ih =>
    cases head with
    | text s => exact ih (b ++ s) hend
    | unknown left right =>
      rw [writePieces_child_of_error left, writePieces_child_of_error right]
    | known left right same =>
      -- the first writer came to an end here, so it did so for this child as well
      rw [writePieces_child_of_ok left] at hend ⊢
      rw [writePieces_child_of_ok right, same b (Writing.not_endless_of_thenWrite hend)]
      cases hrun : write _ b with
      | ok a b' =>
        rw [hrun] at hend
        exact ih b' hend
      | error f b' => rfl

/-- In one context it is enough that the slots are written alike. -/
theorem writePieces_mono {c : Context} {write write' : SlotId → Writing Unit}
    (same : ∀ i b, ¬ Endless (write i b) → write' i b = write i b) (pieces : List Piece)
    (b : String) (hend : ¬ Endless (c.writePieces write pieces b)) :
    c.writePieces write' pieces b = c.writePieces write pieces b := by
  refine writePieces_match (List.forall₂_same.mpr fun piece _ => ?_) b hend
  cases piece with
  | text s => exact .text s
  | child v =>
    cases htype : c.typeOf v.node with
    | error f => exact .unknown htype htype
    | ok i => exact .known htype htype (same i)

/-- More levels change nothing for a writer that comes to an end. -/
theorem writeSlot_mono {c : Context} {n m : Nat} (hnm : n ≤ m) {i : SlotId} {b : String}
    (hend : ¬ Endless (c.writeSlot n i b)) : c.writeSlot m i b = c.writeSlot n i b := by
  induction n generalizing m i b with
  | zero => exact absurd ⟨i, b, rfl⟩ hend
  | succ n ih =>
    obtain ⟨m, rfl⟩ : ∃ k, m = k + 1 := ⟨m - 1, by omega⟩
    cases hlayout : c.layoutOf i with
    | error f => rw [writeSlot_succ_of_error hlayout, writeSlot_succ_of_error hlayout]
    | ok pieces =>
      rw [writeSlot_succ_of_ok hlayout] at hend ⊢
      rw [writeSlot_succ_of_ok hlayout]
      exact writePieces_mono (fun _ _ => ih (by omega)) pieces b hend

/-! ## How deep is deep enough -/

/-- Some depth is enough for writing a slot. -/
def Ends (c : Context) (i : SlotId) : Prop := ∃ fuel, ¬ Endless (c.writeSlot fuel i "")

theorem endless_writeSlot_iff {c : Context} {n : Nat} {i : SlotId} (b : String) :
    Endless (c.writeSlot n i b) ↔ Endless (c.writeSlot n i "") := by
  have h : c.writeSlot n i (b ++ "") = Writing.behind b (c.writeSlot n i "") :=
    writeSlot_behind c n i b ""
  rw [String.append_empty] at h
  rw [h, Writing.endless_behind]

/-- The slots that can be written within a number of levels. -/
def writable (c : Context) (n : Nat) : Finset Nat :=
  (Finset.range c.size).filter fun k => ¬ Endless (c.writeSlot n ⟨k⟩ "")

theorem mem_writable {c : Context} {n k : Nat} :
    k ∈ c.writable n ↔ k < c.size ∧ ¬ Endless (c.writeSlot n ⟨k⟩ "") := by
  rw [writable, Finset.mem_filter, Finset.mem_range]

theorem writable_subset (c : Context) {n m : Nat} (hnm : n ≤ m) :
    c.writable n ⊆ c.writable m := by
  intro k hk
  rw [mem_writable] at hk ⊢
  rw [writeSlot_mono hnm hk.2]
  exact hk

theorem writeSlot_succ_of_missing {c : Context} {i : SlotId} (hi : c.size ≤ i.index) (n : Nat)
    (b : String) : c.writeSlot (n + 1) i b = .error (.missingSlot i) b := by
  apply writeSlot_succ_of_error
  have hnone : c.slot? i = none := Array.getElem?_eq_none hi
  rw [layoutOf, slot, hnone]
  rfl

/-- A level that makes no further slot writable is the last one that could. -/
theorem writable_stable {c : Context} {n : Nat} (h : c.writable (n + 2) = c.writable (n + 1)) :
    c.writable (n + 3) = c.writable (n + 2) := by
  refine Finset.Subset.antisymm ?_ (c.writable_subset (by omega))
  intro k hk
  rw [mem_writable] at hk ⊢
  obtain ⟨hlt, hend⟩ := hk
  refine ⟨hlt, ?_⟩
  -- what stands below the slot is writable one level earlier, so the same text comes out
  have hsame : ∀ i b, ¬ Endless (c.writeSlot (n + 2) i b) →
      c.writeSlot (n + 1) i b = c.writeSlot (n + 2) i b := by
    intro i b hi
    by_cases hsize : i.index < c.size
    · rw [endless_writeSlot_iff] at hi
      have hmem : i.index ∈ c.writable (n + 1) := h ▸ mem_writable.mpr ⟨hsize, hi⟩
      have hearlier : ¬ Endless (c.writeSlot (n + 1) i b) := by
        rw [endless_writeSlot_iff]
        exact (mem_writable.mp hmem).2
      exact (writeSlot_mono (by omega) hearlier).symm
    · rw [writeSlot_succ_of_missing (by omega), writeSlot_succ_of_missing (by omega)]
  cases hlayout : c.layoutOf ⟨k⟩ with
  | error f =>
    rw [writeSlot_succ_of_error hlayout] at hend ⊢
    exact hend
  | ok pieces =>
    rw [writeSlot_succ_of_ok hlayout] at hend ⊢
    rw [writePieces_mono hsame pieces "" hend]
    exact hend

theorem writable_stable_add {c : Context} {n : Nat}
    (h : c.writable (n + 2) = c.writable (n + 1)) (m : Nat) :
    c.writable (n + m + 2) = c.writable (n + 1) := by
  have hstep : ∀ k, c.writable (n + k + 2) = c.writable (n + k + 1) := by
    intro k
    induction k with
    | zero => exact h
    | succ k ih => exact writable_stable ih
  induction m with
  | zero => exact h
  | succ m ih => rw [hstep (m + 1), ← ih]; rfl

/-- Up to the level from which on nothing changes, every level makes another slot writable. -/
theorem writable_stable_or_card (c : Context) (n : Nat) :
    c.writable (n + 2) = c.writable (n + 1) ∨ n < (c.writable (n + 2)).card := by
  have hgrow : ∀ m, c.writable (m + 2) ≠ c.writable (m + 1) →
      (c.writable (m + 1)).card < (c.writable (m + 2)).card := by
    intro m hne
    exact Finset.card_lt_card (Finset.ssubset_iff_subset_ne.mpr
      ⟨c.writable_subset (by omega), Ne.symm hne⟩)
  induction n with
  | zero =>
    by_cases h : c.writable 2 = c.writable 1
    · exact .inl h
    · exact .inr (Nat.zero_lt_of_lt (hgrow 0 h))
  | succ n ih =>
    rcases ih with hstable | hcard
    · exact .inl (writable_stable hstable)
    -- as long as the levels have grown, this one either adds a slot or is the first that does not
    · by_cases h : c.writable (n + 3) = c.writable (n + 2)
      · exact .inl h
      · exact .inr (Nat.lt_of_le_of_lt hcard (hgrow (n + 1) h))

/-- As many levels as there are slots, and one more, are enough for everything that can be
written at all. -/
theorem writable_subset_size (c : Context) (n : Nat) : c.writable n ⊆ c.writable (c.size + 1) := by
  have hcard : (c.writable (c.size + 2)).card ≤ c.size := by
    have : (c.writable (c.size + 2)).card ≤ (Finset.range c.size).card :=
      Finset.card_filter_le _ _
    rwa [Finset.card_range] at this
  have hstable : c.writable (c.size + 2) = c.writable (c.size + 1) := by
    rcases c.writable_stable_or_card c.size with h | h
    · exact h
    · omega
  by_cases hn : n ≤ c.size + 1
  · exact c.writable_subset hn
  · rw [show n = c.size + (n - c.size - 2) + 2 by omega, writable_stable_add hstable]

/-- The depth that `write` allows is enough for every slot that some depth is enough for. -/
theorem writeSlot_of_ends {c : Context} {i : SlotId} (h : c.Ends i) :
    ¬ Endless (c.writeSlot (c.size + 1) i "") := by
  obtain ⟨n, hn⟩ := h
  by_cases hi : i.index < c.size
  · exact (mem_writable.mp (c.writable_subset_size n (mem_writable.mpr ⟨hi, hn⟩))).2
  · rw [writeSlot_succ_of_missing (by omega)]
    rintro ⟨k, s, h⟩
    cases h

/-- `write` does what a writer does that comes to an end within some depth. -/
theorem write_eq_of_not_endless {c : Context} {n : Nat} {i : SlotId}
    (h : ¬ Endless (c.writeSlot n i "")) : c.write i "" = c.writeSlot n i "" := by
  by_cases hn : n ≤ c.size + 1
  · exact writeSlot_mono hn h
  · exact (writeSlot_mono (by omega) (writeSlot_of_ends ⟨n, h⟩)).symm

/-- Two slots have the same text if they are written alike within some depth. -/
theorem render_eq_of_writeSlot_eq {c c' : Context} {n : Nat} {i j : SlotId}
    (hend : ¬ Endless (c.writeSlot n i "")) (h : c'.writeSlot n j "" = c.writeSlot n i "") :
    c'.render j = c.render i := by
  have hend' : ¬ Endless (c'.writeSlot n j "") := h ▸ hend
  have hwrite : c'.write j "" = c.write i "" := by
    rw [write_eq_of_not_endless hend, write_eq_of_not_endless hend', h]
  rw [render, render, EStateM.run, EStateM.run, hwrite]

end Context

end TypeStore
