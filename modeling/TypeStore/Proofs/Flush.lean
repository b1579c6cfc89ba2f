import Mathlib.Data.Prod.Lex
import Mathlib.Order.WithBot
import TypeStore.Proofs.Queue

/-!
# The order of a flush

A flush sorts by the position of the first primary label and keeps the order of reports that agree
on it, and the queue starts over. A report without such a label has no position and comes first. A
label that points outside every file has one, that of a first character. So its report comes after
all those without a label, even if they were offered later, and takes turns with the reports about
the first character of a file. `outsideFirst_iff` says when the reports that point into no file come
first all the same, in the order in which they were offered.
-/

namespace TypeStore

namespace Diagnostic

variable {d e : Diagnostic}

/-! ## Positions -/

theorem positionLE_some_iff {line column line' column' : Nat} :
    positionLE (some (line, column)) (some (line', column')) = true ↔
      line < line' ∨ (line = line' ∧ column ≤ column') := by
  simp [positionLE]

theorem positionLE_total (p q : Option (Nat × Nat)) :
    (positionLE p q || positionLE q p) = true := by
  cases p with
  | none => rfl
  | some p =>
    cases q with
    | none => rfl
    | some q =>
      rw [Bool.or_eq_true, positionLE_some_iff, positionLE_some_iff]
      omega

theorem positionLE_trans (p q r : Option (Nat × Nat)) (hpq : positionLE p q = true)
    (hqr : positionLE q r = true) : positionLE p r = true := by
  cases p with
  | none => rfl
  | some p =>
    cases q with
    | none => cases hpq
    | some q =>
      cases r with
      | none => cases hqr
      | some r =>
        rw [positionLE_some_iff] at hpq hqr ⊢
        omega

/-- Whether two reports stand in the order of their positions. -/
def inOrder (d e : Diagnostic) : Bool := positionLE d.position? e.position?

theorem inOrder_total (d e : Diagnostic) : (d.inOrder e || e.inOrder d) = true :=
  positionLE_total _ _

theorem inOrder_trans (d e f : Diagnostic) (hde : d.inOrder e = true) (hef : e.inOrder f = true) :
    d.inOrder f = true :=
  positionLE_trans _ _ _ hde hef

theorem inOrder_of_position?_eq (h : d.position? = e.position?) : d.inOrder e = true := by
  simpa [inOrder, h] using positionLE_total e.position? e.position?

/-- What a flush goes by: line and column of the first primary label, with the reports that have
none below all others. -/
def sortKey (d : Diagnostic) : WithBot (Nat ×ₗ Nat) :=
  match d.primaryLocation? with
  | none => ⊥
  | some location => (toLex location.lineColumn : Nat ×ₗ Nat)

theorem sortKey_eq (d : Diagnostic) : d.sortKey = d.position?.elim ⊥ fun p => ↑(toLex p) := by
  rw [sortKey, position?]
  cases d.primaryLocation? <;> rfl

theorem sortKey_eq_iff : d.sortKey = e.sortKey ↔ d.position? = e.position? := by
  rw [sortKey_eq, sortKey_eq]
  cases d.position? <;> cases e.position? <;> simp

theorem inOrder_iff : d.inOrder e = true ↔ d.sortKey ≤ e.sortKey := by
  rw [sortKey_eq, sortKey_eq, inOrder]
  cases d.position? with
  | none => simp [positionLE]
  | some p =>
    cases e.position? with
    | none => simp [positionLE]
    | some p' =>
      obtain ⟨line, column⟩ := p
      obtain ⟨line', column'⟩ := p'
      rw [positionLE_some_iff]
      simp [Prod.Lex.le_iff]

/-! ## Places -/

/-- Where the first primary label of a report points. -/
inductive Placement where
  /-- There is no such label. -/
  | unlabelled
  /-- Outside every file. -/
  | aside
  /-- To the first character of a file. -/
  | start
  /-- To some other character of a file. -/
  | later
  /-- To a line or column zero, of which there is none. -/
  | amiss
deriving DecidableEq

namespace Placement

def ofSource (line column : Nat) : Placement :=
  if line = 0 ∨ column = 0 then .amiss
  else if line = 1 ∧ column = 1 then .start
  else .later

/-- Whether a report says nothing about where in a file it belongs. -/
def isOutside : Placement → Bool
  | unlabelled | aside => true
  | start | later | amiss => false

/-- Whether a report is about a character of a file. -/
def isInside : Placement → Bool
  | start | later => true
  | unlabelled | aside | amiss => false

theorem isOutside_ofSource (line column : Nat) : (ofSource line column).isOutside = false := by
  unfold ofSource
  split
  · rfl
  · split <;> rfl

theorem ofSource_inside {line column : Nat} (h : (ofSource line column).isInside = true) :
    (ofSource line column = .start ∧ line = 1 ∧ column = 1) ∨
      (ofSource line column = .later ∧ (1 < line ∨ (line = 1 ∧ 1 < column))) := by
  unfold ofSource at h ⊢
  by_cases hzero : line = 0 ∨ column = 0
  · simp [hzero, isInside] at h
  · by_cases hone : line = 1 ∧ column = 1
    · exact .inl ⟨by simp [hone], hone⟩
    · exact .inr ⟨by simp [hzero, hone], by omega⟩

end Placement

def placement (d : Diagnostic) : Placement :=
  match d.primaryLocation? with
  | none => .unlabelled
  | some (.source _ line column) => .ofSource line column
  | some _ => .aside

theorem placement_eq_ofSource {file line column : Nat}
    (h : d.primaryLocation? = some (.source file line column)) :
    d.placement = .ofSource line column := by
  simp [placement, h]

theorem position?_eq_some {location : Location} (h : d.primaryLocation? = some location) :
    d.position? = some location.lineColumn := by
  simp [position?, h]

/-- A report that points outside every file sorts as one about a first character. -/
theorem outside_cases (h : d.placement.isOutside = true) :
    (d.placement = .unlabelled ∧ d.position? = none) ∨
      (d.placement = .aside ∧ d.position? = some (1, 1)) := by
  cases hlocation : d.primaryLocation? with
  | none => exact .inl ⟨by simp [placement, hlocation], by simp [position?, hlocation]⟩
  | some location =>
    cases location with
    | builtin => exact .inr ⟨by simp [placement, hlocation], position?_eq_some hlocation⟩
    | unknown => exact .inr ⟨by simp [placement, hlocation], position?_eq_some hlocation⟩
    | source file line column =>
      rw [placement_eq_ofSource hlocation, Placement.isOutside_ofSource] at h
      cases h

theorem inside_cases (h : d.placement.isInside = true) :
    (d.placement = .start ∧ d.position? = some (1, 1)) ∨
      (d.placement = .later ∧ ∃ line column, d.position? = some (line, column) ∧
        (1 < line ∨ (line = 1 ∧ 1 < column))) := by
  cases hlocation : d.primaryLocation? with
  | none => simp [placement, hlocation, Placement.isInside] at h
  | some location =>
    cases location with
    | builtin => simp [placement, hlocation, Placement.isInside] at h
    | unknown => simp [placement, hlocation, Placement.isInside] at h
    | source file line column =>
      have hplacement := placement_eq_ofSource hlocation
      have hposition := position?_eq_some hlocation
      rw [hplacement] at h ⊢
      rcases Placement.ofSource_inside h with ⟨hstart, rfl, rfl⟩ | ⟨hlater, hafter⟩
      · exact .inl ⟨hstart, hposition⟩
      · exact .inr ⟨hlater, line, column, hposition, hafter⟩

/-- Whether a report sorts as one about a first character. -/
def sortsAsStart (d : Diagnostic) : Bool := d.position? == some (1, 1)

theorem sortsAsStart_of_start (h : d.placement = .start) : d.sortsAsStart = true := by
  rcases inside_cases (by rw [h]; rfl) with ⟨-, hposition⟩ | ⟨hlater, -⟩
  · simp [sortsAsStart, hposition]
  · simp [h] at hlater

theorem sortsAsStart_of_aside (h : d.placement = .aside) : d.sortsAsStart = true := by
  rcases outside_cases (by rw [h]; rfl) with ⟨hunlabelled, -⟩ | ⟨-, hposition⟩
  · simp [h] at hunlabelled
  · simp [sortsAsStart, hposition]

theorem position?_eq_of_sortsAsStart (hd : d.sortsAsStart = true) (he : e.sortsAsStart = true) :
    d.position? = e.position? := by
  rw [sortsAsStart, beq_iff_eq] at hd he
  rw [hd, he]

/-- A report about a character of a file sorts before one that points into no file only where
both sort as reports about a first character. -/
theorem start_aside_of_inOrder (hd : d.placement.isInside = true)
    (he : e.placement.isOutside = true) (h : d.inOrder e = true) :
    d.placement = .start ∧ e.placement = .aside := by
  unfold inOrder at h
  rcases outside_cases he with ⟨-, hnone⟩ | ⟨haside, hfirst⟩
  · rcases inside_cases hd with ⟨-, hposition⟩ | ⟨-, line, column, hposition, -⟩
    · rw [hposition, hnone] at h
      cases h
    · rw [hposition, hnone] at h
      cases h
  · rcases inside_cases hd with ⟨hstart, -⟩ | ⟨-, line, column, hposition, hafter⟩
    · exact ⟨hstart, haside⟩
    · rw [hposition, hfirst, positionLE_some_iff] at h
      omega

/-- Of two reports that point into no file, only one without a label goes before the other. -/
theorem inOrder_iff_of_isOutside (hd : d.placement.isOutside = true)
    (he : e.placement.isOutside = true) :
    d.inOrder e = true ↔ ¬ (d.placement = .aside ∧ e.placement = .unlabelled) := by
  unfold inOrder
  rcases outside_cases hd with ⟨hd, hposition⟩ | ⟨hd, hposition⟩ <;>
    rcases outside_cases he with ⟨he, hposition'⟩ | ⟨he, hposition'⟩ <;>
    simp [hd, he, hposition, hposition', positionLE]

end Diagnostic

namespace Queue

variable {q : Queue}

/-! ## What a flush keeps -/

theorem flush_perm (q : Queue) : q.flush.1.Perm q.entries := List.mergeSort_perm _ _

theorem flush_sorted (q : Queue) : q.flush.1.Pairwise fun d e => d.inOrder e = true :=
  List.pairwise_mergeSort Diagnostic.inOrder_trans Diagnostic.inOrder_total q.entries

/-- Reports that were offered in the order of their positions keep that order. -/
theorem filter_flush {p : Diagnostic → Bool}
    (h : (q.entries.filter p).Pairwise fun d e => d.inOrder e = true) :
    q.flush.1.filter p = q.entries.filter p := by
  have hsub : (q.entries.filter p).Sublist q.flush.1 :=
    List.sublist_mergeSort Diagnostic.inOrder_trans Diagnostic.inOrder_total h List.filter_sublist
  have hkept : (q.entries.filter p).Sublist (q.flush.1.filter p) := by
    simpa only [List.filter_filter, Bool.and_self] using hsub.filter p
  exact (hkept.eq_of_length ((flush_perm q).filter p).length_eq.symm).symm

/-- A flush cannot tell reports with one position apart. -/
theorem filter_flush_of_same_position {p : Diagnostic → Bool}
    (h : ∀ d e, p d = true → p e = true → d.position? = e.position?) :
    q.flush.1.filter p = q.entries.filter p := by
  apply filter_flush
  rw [List.pairwise_filter]
  exact List.pairwise_of_forall fun d e hd he =>
    Diagnostic.inOrder_of_position?_eq (h d e hd he)

theorem filter_sortsAsStart_flush (q : Queue) :
    q.flush.1.filter (·.sortsAsStart) = q.entries.filter (·.sortsAsStart) :=
  filter_flush_of_same_position fun _ _ => Diagnostic.position?_eq_of_sortsAsStart

theorem filter_sortKey_flush (q : Queue) (key : WithBot (Nat ×ₗ Nat)) :
    q.flush.1.filter (·.sortKey = key) = q.entries.filter (·.sortKey = key) := by
  apply filter_flush_of_same_position
  intro d e hd he
  rw [decide_eq_true_eq] at hd he
  rw [← Diagnostic.sortKey_eq_iff, hd, he]

/-- After every run of requests to an empty queue, a flush hands out what waits, all of it, in the
order of the sort keys, and reports with one key in the order in which they came. Then nothing waits
and no error is counted, and whatever is requested from there on, the queue lets in the reports that
a new one would. -/
theorem flush_sorts_stably_and_starts_over (config : QueueConfig) (requests : List Request) :
    let q := (new config).serveAll requests
    q.flush.1.Perm q.entries ∧
      (q.flush.1.Pairwise fun d e => d.sortKey ≤ e.sortKey) ∧
      (∀ key, q.flush.1.filter (·.sortKey = key) = q.entries.filter (·.sortKey = key)) ∧
      q.flush.2.entries = [] ∧ q.flush.2.errors = 0 ∧
      ∀ later d,
        ((q.flush.2.serveAll later).add d).1 = (((new config).serveAll later).add d).1 := by
  intro q
  have hconfig : q.config = config := config_serveAll (new config) requests
  have hrest : q.flush.2 = new config := congrArg new hconfig
  refine ⟨flush_perm q, ?_, filter_sortKey_flush q, rfl, rfl, ?_⟩
  · refine (flush_sorted q).imp ?_
    intro d e hle
    exact Diagnostic.inOrder_iff.mp hle
  · intro later d
    rw [hrest]

/-! ## Reports that point into no file -/

/-- A flush hands out the reports that point into no file before those about a character of one,
and in the order in which they were offered. -/
def OutsideFirst (q : Queue) : Prop :=
  (q.flush.1.Pairwise fun d e =>
    ¬ (d.placement.isInside = true ∧ e.placement.isOutside = true)) ∧
    q.flush.1.filter (·.placement.isOutside) = q.entries.filter (·.placement.isOutside)

/-- No report that points outside every file comes before one without a label, and none about
a first character before one that points outside every file. -/
def OfferedInTurn (q : Queue) : Prop :=
  q.entries.Pairwise fun d e =>
    ¬ (d.placement = .aside ∧ e.placement = .unlabelled) ∧
      ¬ (d.placement = .start ∧ e.placement = .aside)

theorem OutsideFirst.offeredInTurn (h : q.OutsideFirst) : q.OfferedInTurn := by
  obtain ⟨hfirst, hkept⟩ := h
  have hunlabelled : (q.entries.filter (·.placement.isOutside)).Pairwise fun d e =>
      d.inOrder e = true := hkept ▸ (flush_sorted q).filter _
  have hstart : (q.entries.filter (·.sortsAsStart)).Pairwise fun d e =>
      ¬ (d.placement.isInside = true ∧ e.placement.isOutside = true) :=
    filter_sortsAsStart_flush q ▸ hfirst.filter _
  rw [List.pairwise_filter] at hunlabelled hstart
  refine (hunlabelled.and hstart).imp ?_
  rintro d e ⟨hunlabelled, hstart⟩
  constructor
  · rintro ⟨hd, he⟩
    have hd' : d.placement.isOutside = true := by rw [hd]; rfl
    have he' : e.placement.isOutside = true := by rw [he]; rfl
    exact (Diagnostic.inOrder_iff_of_isOutside hd' he').mp (hunlabelled hd' he') ⟨hd, he⟩
  · rintro ⟨hd, he⟩
    exact hstart (Diagnostic.sortsAsStart_of_start hd) (Diagnostic.sortsAsStart_of_aside he)
      ⟨by rw [hd]; rfl, by rw [he]; rfl⟩

theorem OfferedInTurn.outsideFirst (h : q.OfferedInTurn) : q.OutsideFirst := by
  constructor
  · have hturn : (q.entries.filter (·.sortsAsStart)).Pairwise fun d e =>
        ¬ (d.placement = .start ∧ e.placement = .aside) := (h.imp And.right).filter _
    rw [← filter_sortsAsStart_flush, List.pairwise_filter] at hturn
    refine (hturn.and (flush_sorted q)).imp ?_
    rintro d e ⟨hturn, hle⟩ ⟨hd, he⟩
    obtain ⟨hstart, haside⟩ := Diagnostic.start_aside_of_inOrder hd he hle
    exact hturn (Diagnostic.sortsAsStart_of_start hstart)
      (Diagnostic.sortsAsStart_of_aside haside) ⟨hstart, haside⟩
  · apply filter_flush
    rw [List.pairwise_filter]
    refine h.imp ?_
    rintro d e ⟨hturn, -⟩ hd he
    exact (Diagnostic.inOrder_iff_of_isOutside hd he).mpr hturn

/-- The reports that point into no file come first and in their order exactly if they were offered
in turn. -/
theorem outsideFirst_iff (q : Queue) : q.OutsideFirst ↔ q.OfferedInTurn :=
  ⟨OutsideFirst.offeredInTurn, OfferedInTurn.outsideFirst⟩

/-- A report about a first character, one that points outside every file and one without a label,
which is the wrong way round. -/
def mixed : List Request :=
  [.add ((Diagnostic.error .resolutionLimit ⟨1⟩ "loop").pointingAt (.source 0 1 1) "here"),
    .add ((Diagnostic.error .resolutionLimit ⟨2⟩ "loop").pointingAt .builtin "here"),
    .add (Diagnostic.error .resolutionLimit ⟨3⟩ "loop")]

/-- The report that points outside every file stays behind the one about a first character. -/
theorem mixed_not_outsideFirst :
    let q := (new .standard).serveAll mixed
    (q.flush.1.filter (·.sortsAsStart)).map (·.placement) = [.start, .aside] ∧
      ¬ q.OutsideFirst := by
  intro q
  constructor
  · rw [filter_sortsAsStart_flush]
    decide
  · intro h
    have hturn := h.offeredInTurn
    revert hturn
    unfold OfferedInTurn
    decide

end Queue

end TypeStore
