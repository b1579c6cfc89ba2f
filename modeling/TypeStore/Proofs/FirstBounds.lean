import Mathlib.Data.Finset.Card
import TypeStore.Proofs.History

/-!
# The first bound with an id

Bounds come in several ways: as the list that a type is made with, one at a time, or many at once.
It does not matter which: what is kept are the bounds in the order they were offered, without those
whose id was offered before. `firsts` is that list. A bound that is offered is compared with the
bounds that are kept, `firsts` compares it with all that came before it; the two agree because
every id that was offered is kept (`mem_ids_addAll`).

In a store nothing but an offer changes the bounds of a slot. `Gains` says so of two stores and the
offers made in between; one command keeps to it (`gains_exec`), and so does every run (`gains_run`).
-/

namespace TypeStore

namespace Bounds

variable {bs : Bounds} {b : Bound} {id : NodeId}

/-! ## Ids -/

theorem mem_ids_add :
    id ∈ (bs.add b).toList.map Bound.id ↔ id ∈ bs.toList.map Bound.id ∨ id = b.id := by
  by_cases h : b.id ∈ bs.toList.map Bound.id
  · rw [add_of_mem h]
    constructor
    · exact .inl
    · rintro (hid | rfl)
      · exact hid
      · exact h
  · rw [toList_add_of_not_mem h, List.map_append, List.mem_append]
    simp

/-- No id that was offered is lost. -/
theorem mem_ids_addAll {new : List Bound} :
    id ∈ (bs.addAll new).toList.map Bound.id
      ↔ id ∈ bs.toList.map Bound.id ∨ id ∈ new.map Bound.id := by
  induction new generalizing bs with
  | nil => simp [addAll]
  | cons b rest ih =>
    show id ∈ ((bs.add b).addAll rest).toList.map Bound.id ↔ _
    rw [ih, mem_ids_add, List.map_cons, List.mem_cons, or_assoc]

theorem mem_ids_ofList {offered : List Bound} :
    id ∈ (ofList offered).toList.map Bound.id ↔ id ∈ offered.map Bound.id := by
  rw [ofList, mem_ids_addAll]
  exact or_iff_right List.not_mem_nil

/-- There is one bound for each id that was offered. -/
theorem size_ofList (offered : List Bound) :
    (ofList offered).size = (offered.map Bound.id).toFinset.card := by
  have hids : ((ofList offered).toList.map Bound.id).toFinset
      = (offered.map Bound.id).toFinset := by
    ext id
    rw [List.mem_toFinset, List.mem_toFinset, mem_ids_ofList]
  rw [← hids, List.toFinset_card_of_nodup (ofList offered).distinct, List.length_map]
  rfl

/-! ## Several at once -/

theorem addAll_append (bs : Bounds) (xs ys : List Bound) :
    bs.addAll (xs ++ ys) = (bs.addAll xs).addAll ys :=
  List.foldl_append

theorem ofList_append (xs ys : List Bound) : ofList (xs ++ ys) = (ofList xs).addAll ys :=
  addAll_append ∅ xs ys

/-- Nothing comes of offering bounds whose ids are there already. -/
theorem addAll_of_mem {new : List Bound} (h : ∀ b ∈ new, b.id ∈ bs.toList.map Bound.id) :
    bs.addAll new = bs := by
  induction new with
  | nil => rfl
  | cons b rest ih =>
    obtain ⟨hb, hrest⟩ := List.forall_mem_cons.mp h
    show (bs.add b).addAll rest = bs
    rw [add_of_mem hb]
    exact ih hrest

theorem addAll_toList (bs : Bounds) : bs.addAll bs.toList = bs :=
  addAll_of_mem fun _ hb => List.mem_map_of_mem hb

/-! ## What is kept -/

/-- The bounds of a list without those whose id stands at an earlier position. -/
def firsts (offered : List Bound) : List Bound :=
  (offered.zipIdx.filter fun p => p.1.id ∉ (offered.take p.2).map Bound.id).map Prod.fst

theorem firsts_concat (offered : List Bound) (b : Bound) :
    firsts (offered ++ [b])
      = firsts offered ++ if b.id ∈ offered.map Bound.id then [] else [b] := by
  have hold : offered.zipIdx.filter
        (fun p => p.1.id ∉ ((offered ++ [b]).take p.2).map Bound.id)
      = offered.zipIdx.filter fun p => p.1.id ∉ (offered.take p.2).map Bound.id := by
    apply List.filter_congr
    intro p hp
    have hlt : p.2 < offered.length := List.snd_lt_of_mem_zipIdx hp
    rw [List.take_append_of_le_length (Nat.le_of_lt hlt)]
  rw [firsts, List.zipIdx_append, List.filter_append, List.map_append, hold]
  by_cases h : b.id ∈ offered.map Bound.id <;> simp [firsts, h]

theorem toList_ofList (offered : List Bound) : (ofList offered).toList = firsts offered := by
  induction offered using List.reverseRecOn with
  | nil => rfl
  | append_singleton offered b ih =>
    rw [ofList_append, firsts_concat, ← ih]
    show ((ofList offered).add b).toList = _
    -- the bound is compared with those that are kept, which have the ids of all
    by_cases h : b.id ∈ offered.map Bound.id
    · rw [add_of_mem (mem_ids_ofList.mpr h), if_pos h, List.append_nil]
    · rw [toList_add_of_not_mem (mt mem_ids_ofList.mp h), if_neg h]

theorem find?_add (bs : Bounds) (b : Bound) (id : NodeId) :
    (bs.add b).toList.find? (fun x => x.id == id)
      = (bs.toList ++ [b]).find? fun x => x.id == id := by
  by_cases h : b.id ∈ bs.toList.map Bound.id
  · rw [add_of_mem h, List.find?_append]
    by_cases hid : b.id = id
    · -- a bound with this id is found before the new one
      have hfound : (bs.toList.find? fun x => x.id == id).isSome = true := by
        obtain ⟨x, hx, hxb⟩ := List.mem_map.mp h
        rw [List.find?_isSome]
        exact ⟨x, hx, beq_iff_eq.mpr (hxb.trans hid)⟩
      rw [Option.or_of_isSome hfound]
    · simp [hid]
  · rw [toList_add_of_not_mem h]

/-- The bound that is kept for an id is the first one that was offered. -/
theorem find?_addAll (bs : Bounds) (new : List Bound) (id : NodeId) :
    (bs.addAll new).toList.find? (fun x => x.id == id)
      = (bs.toList ++ new).find? fun x => x.id == id := by
  induction new generalizing bs with
  | nil => simp [addAll]
  | cons b rest ih =>
    show ((bs.add b).addAll rest).toList.find? _ = _
    rw [ih, List.find?_append, find?_add, ← List.find?_append, List.append_assoc]
    rfl

/-! ## Offers -/

/-- One way of offering bounds after the first list. -/
inductive Offer where
  | one (b : Bound)
  | many (bs : List Bound)

/-- What is offered, in order. -/
def Offer.bounds : Offer → List Bound
  | one b => [b]
  | many bs => bs

/-- The bounds after an offer. -/
def accept (bs : Bounds) : Offer → Bounds
  | .one b => bs.add b
  | .many new => bs.addAll new

/-- The bounds after a list of offers. -/
def acceptAll (bs : Bounds) (offers : List Offer) : Bounds := offers.foldl accept bs

theorem acceptAll_append (bs : Bounds) (offers more : List Offer) :
    bs.acceptAll (offers ++ more) = (bs.acceptAll offers).acceptAll more :=
  List.foldl_append

theorem accept_eq_addAll (bs : Bounds) (offer : Offer) :
    bs.accept offer = bs.addAll offer.bounds := by
  cases offer with
  | one b => rfl
  | many new => rfl

theorem acceptAll_eq_addAll (bs : Bounds) (offers : List Offer) :
    bs.acceptAll offers = bs.addAll (offers.flatMap Offer.bounds) := by
  induction offers generalizing bs with
  | nil => rfl
  | cons offer rest ih =>
    show (bs.accept offer).acceptAll rest = _
    rw [ih, accept_eq_addAll, List.flatMap_cons, addAll_append]

/-- A list and any offers after it come to what one list of them all comes to. -/
theorem acceptAll_ofList (initial : List Bound) (offers : List Offer) :
    (ofList initial).acceptAll offers = ofList (initial ++ offers.flatMap Offer.bounds) := by
  rw [acceptAll_eq_addAll, ofList_append]

end Bounds

/-! ## Stores -/

/-- What a command offers to a slot. -/
def Command.offersTo (i : SlotId) : Command → List Bounds.Offer
  | addBound j b => if j = i then [.one b] else []
  | addBounds j bs => if j = i then [.many bs] else []
  | _ => []

/-- No type becomes a parameter or stops being one. -/
theorem Slot.Develops.isParameter_eq {s t : Slot} {narrowed : Prop} (h : s.Develops narrowed t) :
    t.isParameter = s.isParameter := by
  rcases h.shape with hst | ⟨-, state, state', location, hs, ht⟩
  · simp [Slot.isParameter, hst]
  · simp [Slot.isParameter, hs, ht]

namespace Context

variable {c c' c'' : Context} {i j : SlotId} {s : Slot} {offers more : SlotId → List Bounds.Offer}

/-- The slots of the first store are in the second one, with the bounds that they have after the
offers to each of them. -/
def Gains (c : Context) (offers : SlotId → List Bounds.Offer) (c' : Context) : Prop :=
  ∀ i s, c.slot? i = some s →
    ∃ t, c'.slot? i = some t ∧ t.bounds = s.bounds.acceptAll (offers i)

namespace Gains

theorem of_slots (h : ∀ {i s}, c.slot? i = some s → c'.slot? i = some s) :
    c.Gains (fun _ => []) c' :=
  fun _ s hs => ⟨s, h hs, rfl⟩

theorem of_arena (h : c'.arena = c.arena) : c.Gains (fun _ => []) c' := by
  apply of_slots
  intro i s hs
  rw [slot?, h]
  exact hs

theorem trans (h : c.Gains offers c') (h' : c'.Gains more c'') :
    c.Gains (fun i => offers i ++ more i) c'' := by
  intro i s hs
  obtain ⟨t, ht, hst⟩ := h i s hs
  obtain ⟨u, hu, htu⟩ := h' i t ht
  exact ⟨u, hu, by rw [htu, hst, Bounds.acceptAll_append]⟩

end Gains

theorem slot?_attempt_modifySlot (c : Context) (j i : SlotId) (f : Slot → Slot) :
    (c.attempt (c.modifySlot j f)).2.slot? i
      = if j = i then (c.slot? i).map f else c.slot? i := by
  unfold modifySlot
  split
  · exact slot?_modify c j i f
  · -- there is no slot to change
    rename_i hnone
    show c.slot? i = _
    split
    · rename_i hij
      rw [← hij, hnone]
      rfl
    · rfl

theorem gains_modifySlot (c : Context) (j : SlotId) (new : List Bounds.Offer) {f : Slot → Slot}
    (hf : ∀ s, (f s).bounds = s.bounds.acceptAll new) :
    c.Gains (fun i => if j = i then new else []) (c.attempt (c.modifySlot j f)).2 := by
  intro i s hs
  rw [slot?_attempt_modifySlot, hs]
  by_cases hij : j = i
  · simp only [if_pos hij]
    exact ⟨f s, rfl, hf s⟩
  · simp only [if_neg hij]
    exact ⟨s, rfl, rfl⟩

theorem gains_modifySlot_nil (c : Context) (j : SlotId) {f : Slot → Slot}
    (hf : ∀ s, (f s).bounds = s.bounds) :
    c.Gains (fun _ => []) (c.attempt (c.modifySlot j f)).2 := by
  simpa using gains_modifySlot c j [] hf

theorem gains_narrow (c : Context) (j met : SlotId) :
    c.Gains (fun _ => []) (c.attempt (c.narrow j met)).2 := by
  apply attempt_keeps
  · exact .of_arena rfl
  · intro c' hc
    obtain ⟨-, state, location, t, -, -, -, hmodify⟩ := narrow_eq_ok hc
    have hgains := gains_modifySlot_nil c j
      (f := fun s => { s with shape := .infer (state.meetShape t.shape) location }) fun _ => rfl
    rwa [hmodify] at hgains

/-- A copy adds slots, also when it fails. -/
theorem gains_finish {α : Type} {x : Copying α}
    (steps : CopySteps c ((x.after (.start c)).commit c)) :
    c.Gains (fun _ => []) (c.finish x).2 := by
  apply Gains.of_slots
  intro i s hs
  have hkept := CopySteps.slot? steps hs
  rcases finish_eq c x with ⟨a, d, hx, rfl⟩ | ⟨f, d, hx, rfl⟩
  · rw [hx]
    exact hkept
  · rw [hx]
    exact hkept

/-- One command. -/
theorem gains_exec (c : Context) (command : Command) :
    c.Gains (fun i => command.offersTo i) (c.exec command).2 := by
  cases command with
  | addBound j b => exact gains_modifySlot c j [.one b] fun _ => rfl
  | addBounds j bs => exact gains_modifySlot c j [.many bs] fun _ => rfl
  | setNode j n => exact gains_modifySlot_nil c j fun _ => rfl
  | absorb j n => exact gains_modifySlot_nil c j fun _ => rfl
  | narrow j met => exact gains_narrow c j met
  | allocate s => exact .of_slots slot?_allocate_of_some
  | register s => exact .of_slots slot?_allocate_of_some
  | resolve j => exact .of_slots (growsTo_resolve c j).slot?
  | copy j => exact gains_finish (steps_copy c j)
  | copyVar v => exact gains_finish (steps_copyVar c v)
  | bindType | bindSite | addBuiltin | mapPlaceholder | unmapPlaceholder => exact .of_arena rfl
  | _ => exact .of_arena (sameTypes_exec rfl).arena

/-- A run of any commands, whatever they answer. -/
theorem gains_run (c : Context) (commands : List Command) :
    c.Gains (fun i => commands.flatMap (Command.offersTo i)) (c.run commands) := by
  induction commands generalizing c with
  | nil => exact .of_arena rfl
  | cons command rest ih => exact (gains_exec c command).trans (ih (c.exec command).2)

/-- A copy is offered the bounds of the slot it is made from, and they come out as they were. -/
theorem bounds_copy (hs : c.slot? i = some s) (hcomposite : s.isInfer = false)
    (hcopy : c.copy i = (.ok j, c')) (hsize : c'.size ≤ 2 ^ 32) :
    ∃ t, c'.slot? j = some t ∧ t.bounds = s.bounds := by
  cases copied_copy hcopy hsize with
  | infer slot shape new minted =>
    rw [hs] at slot
    cases slot
    simp [Slot.isInfer, shape] at hcomposite
  | composite slot composite owned room =>
    rw [hs] at slot
    cases slot
    exact ⟨_, slot?_allocate_nextSlot room _, Bounds.ofList_toList _⟩

theorem boundCount_of_isParameter (hs : c.slot? i = some s) (hparameter : s.isParameter = true) :
    c.boundCount i = .ok s.bounds.size := by
  rw [boundCount, slot_eq_ok_iff.mpr hs]
  show Except.ok s.boundCount = _
  rw [Slot.boundCount, if_pos hparameter]

/-- However bounds are offered, what is kept is everything offered without the bounds whose id was
offered before, so path and location are those of the first bound with an id. Two ways of offering
the same bounds in the same order come to the same, and offering once more what is kept comes to
nothing; that is why a copy has the bounds of the slot it is made from. A parameter counts one
bound for each id. In a store nothing but an offer changes the bounds of a slot: after any run of
commands they are what the offers before and during the run come to. -/
theorem bounds_are_first_offers (initial : List Bound) (offers : List Bounds.Offer) :
    let kept := (Bounds.ofList initial).acceptAll offers
    let offered := initial ++ offers.flatMap Bounds.Offer.bounds
    kept.toList = Bounds.firsts offered ∧
      (∀ id, kept.toList.find? (fun b => b.id == id) = offered.find? fun b => b.id == id) ∧
      (∀ initial' offers', initial' ++ offers'.flatMap Bounds.Offer.bounds = offered →
        (Bounds.ofList initial').acceptAll offers' = kept) ∧
      kept.addAll kept.toList = kept ∧
      (∀ (c c' : Context) (i j : SlotId) (s : Slot), c.slot? i = some s → s.bounds = kept →
        s.isInfer = false → c.copy i = (.ok j, c') → c'.size ≤ 2 ^ 32 →
        ∃ t, c'.slot? j = some t ∧ t.bounds = kept) ∧
      (∀ (c : Context) (i : SlotId) (s : Slot), c.slot? i = some s → s.bounds = kept →
        s.isParameter = true → c.boundCount i = .ok (offered.map Bound.id).toFinset.card) ∧
      ∀ (c : Context) (i : SlotId) (s : Slot) (commands : List Command), c.slot? i = some s →
        s.bounds = kept → ∃ t, (c.run commands).slot? i = some t ∧
          t.isParameter = s.isParameter ∧
          t.bounds = (Bounds.ofList initial).acceptAll
            (offers ++ commands.flatMap (Command.offersTo i)) := by
  intro kept offered
  have hkept : kept = .ofList offered := Bounds.acceptAll_ofList initial offers
  refine ⟨?_, ?_, ?_, kept.addAll_toList, ?_, ?_, ?_⟩
  · rw [hkept, Bounds.toList_ofList]
  · intro id
    rw [hkept]
    exact Bounds.find?_addAll ∅ offered id
  · intro initial' offers' hsame
    rw [hkept, ← hsame, Bounds.acceptAll_ofList]
  · intro c c' i j s hs hbounds hcomposite hcopy hsize
    rw [← hbounds]
    exact bounds_copy hs hcomposite hcopy hsize
  · intro c i s hs hbounds hparameter
    rw [boundCount_of_isParameter hs hparameter, hbounds, hkept, Bounds.size_ofList]
  · intro c i s commands hs hbounds
    obtain ⟨t, ht, hst⟩ := gains_run c commands i s hs
    obtain ⟨t', ht', hdevelops⟩ := (develops_run c commands).slot hs
    obtain rfl : t = t' := Option.some.inj (ht.symm.trans ht')
    refine ⟨t, ht, hdevelops.isParameter_eq, ?_⟩
    rw [hst, hbounds, Bounds.acceptAll_append]

/-- A bound with a path of one name. -/
def namedBound (id : NodeId) (name : String) : Bound := ⟨id, .single id name, .unknown⟩

/-- A list with an id that occurs twice. -/
def firstBounds : List Bound :=
  [namedBound ⟨1⟩ "Clone", namedBound ⟨2⟩ "Eq", namedBound ⟨1⟩ "Debug"]

/-- One bound with a new id, and two of which the first has an id of the list. -/
def laterBounds : List Bounds.Offer :=
  [.one (namedBound ⟨3⟩ "Copy"), .many [namedBound ⟨2⟩ "Ord", namedBound ⟨4⟩ "Send"]]

/-- A store with a parameter that was offered all of these. -/
def boundedParameter : Context :=
  (new .standard).run [.mint, .register { Slot.new ⟨45⟩ (.parameter "T" .unknown) with
    bounds := (Bounds.ofList firstBounds).acceptAll laterBounds }]

/-- Offers more bounds to the parameter, to a builtin type and to a slot that is not there, and
copies the parameter in between. -/
def offerMore : List Command :=
  [.addBounds ⟨19⟩ [namedBound ⟨4⟩ "Hash", namedBound ⟨5⟩ "Sync"], .copy ⟨19⟩,
    .addBound ⟨0⟩ (namedBound ⟨6⟩ "Sized"), .addBound ⟨400⟩ (namedBound ⟨7⟩ "Drop"),
    .addBound ⟨19⟩ (namedBound ⟨1⟩ "Display")]

/-- The parameter has four bounds, its copy has the same four, and one of those offered later is
added to the parameter. -/
theorem boundedParameter_first_offers :
    boundedParameter.boundCount ⟨19⟩ = .ok 4 ∧
      (∃ t, (boundedParameter.copy ⟨19⟩).2.slot? ⟨20⟩ = some t ∧
        t.bounds.toList.map (fun b => b.path.names) = [["Clone"], ["Eq"], ["Copy"], ["Send"]]) ∧
      ∃ t, (boundedParameter.run offerMore).slot? ⟨19⟩ = some t ∧ t.isParameter = true ∧
        t.bounds.toList.map (fun b => b.path.names)
          = [["Clone"], ["Eq"], ["Copy"], ["Send"], ["Sync"]] := by
  have hview : (boundedParameter.slot? ⟨19⟩).map (fun s => (s.bounds, s.isParameter, s.isInfer))
      = some ((Bounds.ofList firstBounds).acceptAll laterBounds, true, false) := by
    decide +kernel
  obtain ⟨s, hs, htriple⟩ := Option.map_eq_some_iff.mp hview
  obtain ⟨hbounds, hpair⟩ := Prod.mk.inj htriple
  obtain ⟨hparameter, hcomposite⟩ := Prod.mk.inj hpair
  have hcopy : (boundedParameter.copy ⟨19⟩).1 = .ok ⟨20⟩ := by decide +kernel
  have hsize : (boundedParameter.copy ⟨19⟩).2.size ≤ 2 ^ 32 := by decide +kernel
  obtain ⟨-, -, -, -, hcopies, hcount, hrun⟩ := bounds_are_first_offers firstBounds laterBounds
  refine ⟨?_, ?_, ?_⟩
  · rw [hcount _ _ _ hs hbounds hparameter]
    decide +kernel
  · obtain ⟨t, ht, hkept⟩ := hcopies _ _ _ _ _ hs hbounds hcomposite
      (Prod.fst_eq_iff.mp hcopy) hsize
    refine ⟨t, ht, ?_⟩
    rw [hkept]
    decide +kernel
  · obtain ⟨t, ht, hsame, hkept⟩ := hrun _ _ _ offerMore hs hbounds
    refine ⟨t, ht, hsame.trans hparameter, ?_⟩
    rw [hkept]
    decide +kernel

end Context

end TypeStore
