import TypeStore.Diagnostic.Queue

/-!
# Runs of a queue

A queue turns reports away for two reasons and keeps the number of errors beside the list it
counts. `add_cases` says once what offering a report does, and the bookkeeping follows for every
run of requests: the count is right, the limit is kept, nothing waits twice, and whatever was
offered since the last flush waits itself or has something that waits in its place. What waits in
the place of an error may be less severe, and then the error does not show.
-/

namespace TypeStore

namespace Diagnostic

/-- What a report says and about which node. Reports that agree on it repeat one another. -/
def subject (d : Diagnostic) : ErrorCode × Option NodeId × String := (d.code, d.node, d.message)

theorem repeats_iff {d e : Diagnostic} : d.repeats e = true ↔ e.subject = d.subject := by
  simp [repeats, subject, and_assoc]

end Diagnostic

namespace Queue

open Diagnostic (isError subject)

variable {q : Queue} {d e : Diagnostic}

/-! ## Offering a report -/

/-- The subjects of the reports that wait. -/
def subjects (q : Queue) : List (ErrorCode × Option NodeId × String) := q.entries.map subject

theorem holds_iff : q.holds d = true ↔ d.subject ∈ q.subjects := by
  simp [holds, subjects, Diagnostic.repeats_iff]

theorem limitReached_iff :
    q.limitReached = true ↔ 0 < q.config.errorLimit ∧ q.config.errorLimit ≤ q.errors := by
  simp [limitReached]

/-- The queue with one more report at the end. -/
def taking (q : Queue) (d : Diagnostic) : Queue :=
  { q with
    entries := q.entries ++ [d]
    errors := if d.isError then q.errors + 1 else q.errors }

@[simp]
theorem config_taking (q : Queue) (d : Diagnostic) : (q.taking d).config = q.config := rfl

@[simp]
theorem entries_taking (q : Queue) (d : Diagnostic) :
    (q.taking d).entries = q.entries ++ [d] := rfl

@[simp]
theorem subjects_taking (q : Queue) (d : Diagnostic) :
    (q.taking d).subjects = q.subjects ++ [d.subject] := by
  simp [subjects]

/-- A report is let in unless it is an error too many or repeats one that waits. -/
theorem admits_iff :
    q.admits d = true ↔ ¬ (d.isError = true ∧ q.limitReached = true) ∧
      ¬ (q.config.deduplicate = true ∧ d.subject ∈ q.subjects) := by
  simp only [← holds_iff, admits, Bool.and_eq_true, Bool.not_eq_true', ← Bool.not_eq_true]

/-- Offering a report puts it at the end, or leaves the queue as it is: because there are as many
errors as there may be, or because the report repeats one that waits. -/
theorem add_cases (q : Queue) (d : Diagnostic) :
    (q.add d = (true, q.taking d) ∧ q.admits d = true) ∨
      (q.add d = (false, q) ∧ ((d.isError = true ∧ q.limitReached = true) ∨
        (q.config.deduplicate = true ∧ d.subject ∈ q.subjects))) := by
  by_cases h : q.admits d = true
  · exact .inl ⟨by simp [add, taking, h], h⟩
  · refine .inr ⟨by simp [add, h], ?_⟩
    rw [admits_iff] at h
    by_cases hlimit : d.isError = true ∧ q.limitReached = true
    · exact .inl hlimit
    · by_cases hrepeat : q.config.deduplicate = true ∧ d.subject ∈ q.subjects
      · exact .inr hrepeat
      · exact absurd ⟨hlimit, hrepeat⟩ h

/-! ## The books -/

/-- The count of errors is right and within the limit, and no two reports that wait repeat one
another where that is unwanted. -/
structure Tidy (q : Queue) : Prop where
  errors : q.errors = q.entries.countP isError
  limit : 0 < q.config.errorLimit → q.errors ≤ q.config.errorLimit
  distinct : q.config.deduplicate = true → q.subjects.Nodup

theorem tidy_new (config : QueueConfig) : (new config).Tidy where
  errors := rfl
  limit _ := Nat.zero_le _
  distinct _ := List.nodup_nil

theorem Tidy.taking (h : q.Tidy) (hd : q.admits d = true) : (q.taking d).Tidy := by
  obtain ⟨hlimit, hrepeat⟩ := admits_iff.mp hd
  constructor
  · show (if d.isError then q.errors + 1 else q.errors) = (q.entries ++ [d]).countP isError
    by_cases herror : d.isError = true
    · simp [herror, h.errors]
    · simp [herror, h.errors]
  · intro (hpos : 0 < q.config.errorLimit)
    show (if d.isError then q.errors + 1 else q.errors) ≤ q.config.errorLimit
    have hle := h.limit hpos
    by_cases herror : d.isError = true
    -- the limit is not reached yet, so one more error stays within it
    · have hroom : ¬ (0 < q.config.errorLimit ∧ q.config.errorLimit ≤ q.errors) := by
        rw [← limitReached_iff]
        intro hreached
        exact hlimit ⟨herror, hreached⟩
      simp only [herror, if_true]
      omega
    · simpa [herror] using hle
  · intro hdedup
    rw [subjects_taking]
    exact List.nodup_append.mpr ⟨h.distinct hdedup, by simp, by
      intro a ha b hb hab
      rw [List.mem_singleton] at hb
      exact hrepeat ⟨hdedup, hb ▸ hab ▸ ha⟩⟩

theorem Tidy.add (h : q.Tidy) (d : Diagnostic) : (q.add d).2.Tidy := by
  rcases add_cases q d with ⟨hadd, hd⟩ | ⟨hadd, -⟩
  · rw [hadd]
    exact h.taking hd
  · rw [hadd]
    exact h

/-- A report has not been lost: it waits itself, or one that it repeats does where repetitions
are unwanted, or it is an error and as many errors wait as there may be. -/
def Accounts (q : Queue) (d : Diagnostic) : Prop :=
  d ∈ q.entries ∨ (q.config.deduplicate = true ∧ d.subject ∈ q.subjects) ∨
    (d.isError = true ∧ 0 < q.config.errorLimit ∧
      q.entries.countP isError = q.config.errorLimit)

theorem Tidy.countP_of_limitReached (h : q.Tidy) (hlimit : q.limitReached = true) :
    0 < q.config.errorLimit ∧ q.entries.countP isError = q.config.errorLimit := by
  obtain ⟨hpos, hle⟩ := limitReached_iff.mp hlimit
  have := h.limit hpos
  have := h.errors
  exact ⟨hpos, by omega⟩

theorem Tidy.accounts_add_self (h : q.Tidy) (d : Diagnostic) : (q.add d).2.Accounts d := by
  rcases add_cases q d with ⟨hadd, -⟩ | ⟨hadd, ⟨herror, hlimit⟩ | hrepeat⟩
  · rw [hadd]
    exact .inl (by simp)
  · rw [hadd]
    exact .inr (.inr ⟨herror, h.countP_of_limitReached hlimit⟩)
  · rw [hadd]
    exact .inr (.inl hrepeat)

/-- A report that is accounted for stays so whatever is offered next. -/
theorem Tidy.accounts_add (h : q.Tidy) (he : q.Accounts e) (d : Diagnostic) :
    (q.add d).2.Accounts e := by
  rcases add_cases q d with ⟨hadd, hd⟩ | ⟨hadd, -⟩
  · rw [hadd]
    rcases he with hwaits | ⟨hdedup, hrepeat⟩ | ⟨herror, hpos, hfull⟩
    · exact .inl (by simp [hwaits])
    · exact .inr (.inl ⟨hdedup, by simp [hrepeat]⟩)
    · refine .inr (.inr ⟨herror, hpos, ?_⟩)
      -- the limit is reached, so what was let in is no error
      have hreached : q.limitReached = true :=
        limitReached_iff.mpr ⟨hpos, Nat.le_of_eq (by rw [h.errors, hfull])⟩
      have hnoError : ¬ d.isError = true := by
        intro hisError
        exact (admits_iff.mp hd).1 ⟨hisError, hreached⟩
      simp [hnoError, hfull]
  · rw [hadd]
    exact he

/-! ## Runs -/

/-- What is asked of a queue. -/
inductive Request where
  | add (d : Diagnostic)
  | flush

/-- The queue after a request. -/
def serve (q : Queue) : Request → Queue
  | .add d => (q.add d).2
  | .flush => q.flush.2

/-- The queue after a list of requests. -/
def serveAll (q : Queue) (requests : List Request) : Queue := requests.foldl serve q

/-- What has been offered since the last flush, given what had been before a request. -/
def offer (offered : List Diagnostic) : Request → List Diagnostic
  | .add d => offered ++ [d]
  | .flush => []

/-- What a list of requests offers after its last flush. -/
def offered (requests : List Request) : List Diagnostic := requests.foldl offer []

theorem config_serve (q : Queue) (r : Request) : (q.serve r).config = q.config := by
  cases r with
  | add d =>
    show (q.add d).2.config = q.config
    rcases add_cases q d with ⟨hadd, -⟩ | ⟨hadd, -⟩ <;> simp [hadd]
  | flush => rfl

theorem config_serveAll (q : Queue) (requests : List Request) :
    (q.serveAll requests).config = q.config := by
  induction requests generalizing q with
  | nil => rfl
  | cons r rest ih => exact (ih (q.serve r)).trans (config_serve q r)

theorem Tidy.serve (h : q.Tidy) (r : Request) : (q.serve r).Tidy := by
  cases r with
  | add d => exact h.add d
  | flush => exact tidy_new q.config

theorem Tidy.serveAll (h : q.Tidy) (requests : List Request) : (q.serveAll requests).Tidy := by
  induction requests generalizing q with
  | nil => exact h
  | cons r rest ih => exact ih (h.serve r)

/-- One request leaves everything accounted for that has been offered since the last flush. -/
theorem Tidy.accounts_serve (h : q.Tidy) {ds : List Diagnostic} (hds : ∀ d ∈ ds, q.Accounts d)
    (r : Request) : ∀ d ∈ offer ds r, (q.serve r).Accounts d := by
  cases r with
  | add e =>
    intro d hd
    rcases List.mem_append.mp hd with hd | hd
    · exact h.accounts_add (hds d hd) e
    · rw [List.mem_singleton.mp hd]
      exact h.accounts_add_self e
  | flush => simp [offer]

theorem Tidy.accounts_serveAll (h : q.Tidy) {ds : List Diagnostic} (hds : ∀ d ∈ ds, q.Accounts d)
    (requests : List Request) :
    ∀ d ∈ requests.foldl offer ds, (q.serveAll requests).Accounts d := by
  induction requests generalizing q ds with
  | nil => exact hds
  | cons r rest ih => exact ih (h.serve r) (h.accounts_serve hds r)

/-- After every run of requests to an empty queue the count of errors is right, the limit is kept
and nothing waits twice where that is unwanted; offering a report answers whether it was put at
the end and otherwise changes nothing; and whatever was offered since the last flush is accounted
for. -/
theorem run_keeps_count_and_loses_nothing (config : QueueConfig) (requests : List Request) :
    let q := (new config).serveAll requests
    q.config = config ∧
      q.errors = q.entries.countP isError ∧
      (0 < config.errorLimit → q.errors ≤ config.errorLimit) ∧
      (config.deduplicate = true → (q.entries.map subject).Nodup) ∧
      (∀ d, ((q.add d).1 = true ↔ (q.add d).2.entries = q.entries ++ [d]) ∧
        ((q.add d).1 = false → (q.add d).2 = q)) ∧
      ∀ d ∈ offered requests,
        d ∈ q.entries ∨
          (config.deduplicate = true ∧ ∃ e ∈ q.entries, e.subject = d.subject) ∨
          (d.isError = true ∧ 0 < config.errorLimit ∧
            q.entries.countP isError = config.errorLimit) := by
  intro q
  have hconfig : q.config = config := config_serveAll (new config) requests
  have htidy : q.Tidy := (tidy_new config).serveAll requests
  refine ⟨hconfig, htidy.errors, ?_, ?_, ?_, ?_⟩
  · rw [← hconfig]
    exact htidy.limit
  · rw [← hconfig]
    exact htidy.distinct
  · intro d
    rcases add_cases q d with ⟨hadd, -⟩ | ⟨hadd, -⟩
    · simp [hadd]
    · simp [hadd]
  · intro d hd
    have haccounts := (tidy_new config).accounts_serveAll (List.forall_mem_nil _) requests d hd
    rw [← hconfig]
    simpa only [Accounts, subjects, List.mem_map] using haccounts

/-- Three errors, one of them offered twice, and a warning. -/
def crowd : List Request :=
  [.add (.error .resolutionLimit ⟨1⟩ "loop"), .add (.error .resolutionLimit ⟨1⟩ "loop"),
    .add { Diagnostic.error .resolutionLimit ⟨2⟩ "loop" with severity := .warning },
    .add (.error .resolutionLimit ⟨2⟩ "cycle"), .add (.error .resolutionLimit ⟨3⟩ "loop")]

/-- In a queue for two errors the third one does not wait, and two others do. -/
theorem crowd_turned_away :
    let q := (new ⟨2, true⟩).serveAll crowd
    let late := Diagnostic.error .resolutionLimit ⟨3⟩ "loop"
    late ∈ offered crowd ∧ late ∉ q.entries ∧ (q.entries.map subject).Nodup ∧
      q.entries.countP isError = 2 := by
  intro q late
  obtain ⟨-, -, -, hdistinct, -, haccounts⟩ := run_keeps_count_and_loses_nothing ⟨2, true⟩ crowd
  have hoffered : late ∈ offered crowd := by decide
  have hlate : late ∉ q.entries := by decide
  have hnew : ¬ ∃ e ∈ q.entries, e.subject = late.subject := by decide
  refine ⟨hoffered, hlate, hdistinct rfl, ?_⟩
  rcases haccounts late hoffered with hwaits | ⟨-, hrepeat⟩ | ⟨-, -, hfull⟩
  · exact absurd hwaits hlate
  · exact absurd hrepeat hnew
  · exact hfull

/-! ## Errors that do not show -/

theorem Tidy.hasErrors_iff (h : q.Tidy) :
    q.hasErrors = true ↔ ∃ e ∈ q.entries, e.isError = true := by
  simp [hasErrors, h.errors, List.countP_pos_iff]

/-- After an error has been offered there are errors in the queue, except in one case: repetitions
are unwanted, none of the reports that wait is an error, and the error repeats one of them. A
repetition says the same about the same node, but it need not be as severe. -/
theorem offered_error_hidden_iff (config : QueueConfig) (requests : List Request)
    (hd : d.isError = true) :
    let q := (new config).serveAll requests
    (q.add d).2.hasErrors = false ↔
      config.deduplicate = true ∧ (∀ e ∈ q.entries, e.isError = false) ∧
        ∃ e ∈ q.entries, e.subject = d.subject := by
  intro q
  have hconfig : q.config = config := config_serveAll (new config) requests
  have htidy : q.Tidy := (tidy_new config).serveAll requests
  have hwaits : d.subject ∈ q.subjects ↔ ∃ e ∈ q.entries, e.subject = d.subject := List.mem_map
  rw [← hconfig, ← hwaits, ← Bool.not_eq_true, (htidy.add d).hasErrors_iff]
  rcases add_cases q d with ⟨hadd, hadmits⟩ | ⟨hadd, ⟨-, hlimit⟩ | ⟨hdedup, hrepeat⟩⟩
  · have hshows : ∃ e ∈ (q.add d).2.entries, e.isError = true := ⟨d, by simp [hadd], hd⟩
    refine iff_of_false (not_not_intro hshows) ?_
    rintro ⟨hdedup, -, hrepeat⟩
    exact (admits_iff.mp hadmits).2 ⟨hdedup, hrepeat⟩
  · -- as many errors wait as there may be, and that is at least one
    have hfull := htidy.countP_of_limitReached hlimit
    obtain ⟨e, he, herror⟩ := List.countP_pos_iff.mp (hfull.2 ▸ hfull.1)
    rw [hadd]
    refine iff_of_false (not_not_intro ⟨e, he, herror⟩) ?_
    rintro ⟨-, hnone, -⟩
    exact absurd herror (by simp [hnone e he])
  · rw [hadd]
    simp [hdedup, hrepeat]

/-- A warning. -/
def warned : List Request :=
  [.add { Diagnostic.error .resolutionLimit ⟨1⟩ "loop" with severity := .warning }]

/-- An error about another node shows. -/
theorem warned_shows_other_error :
    let q := (new .standard).serveAll warned
    let d := Diagnostic.error .resolutionLimit ⟨2⟩ "loop"
    d.isError = true ∧ (q.add d).2.hasErrors = true := by
  intro q d
  have hd : d.isError = true := rfl
  have hnew : ¬ ∃ e ∈ q.entries, e.subject = d.subject := by decide
  refine ⟨hd, ?_⟩
  rw [← Bool.not_eq_false]
  intro hhidden
  obtain ⟨-, -, hrepeat⟩ := (offered_error_hidden_iff .standard warned hd).mp hhidden
  exact hnew hrepeat

/-- An error that says what the warning says does not. -/
theorem warned_hides_error :
    let q := (new .standard).serveAll warned
    let d := Diagnostic.error .resolutionLimit ⟨1⟩ "loop"
    d.isError = true ∧ (q.add d).2.hasErrors = false := by
  decide

end Queue

end TypeStore
