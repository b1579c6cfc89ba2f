import TypeStore.Diagnostic

/-!
# The diagnostic queue

Diagnostics wait here in the order in which they came. An error is turned away once the limit on
errors is reached, and, if so configured, a diagnostic that says the same about the same node as
one that is waiting. `flush` hands all of them out in the order of their positions.
-/

namespace TypeStore

/-- How many errors are kept, zero for all of them, and whether repetitions are dropped. -/
structure QueueConfig where
  errorLimit : Nat
  deduplicate : Bool
deriving DecidableEq, Repr

namespace QueueConfig

/-- A hundred errors, without repetitions. -/
def standard : QueueConfig := ⟨100, true⟩

/-- Everything is kept. -/
def unlimited : QueueConfig := ⟨0, false⟩

end QueueConfig

namespace Diagnostic

/-- Same code, same node, same message: the one repeats the other. -/
def repeats (d e : Diagnostic) : Bool :=
  e.code == d.code && e.node == d.node && e.message == d.message

/-- Line and column of the first primary label, which decide the order of a flush. -/
def position? (d : Diagnostic) : Option (Nat × Nat) :=
  d.primaryLocation?.map Location.lineColumn

/-- No position comes first, then lines ascend, then columns. -/
def positionLE : Option (Nat × Nat) → Option (Nat × Nat) → Bool
  | none, _ => true
  | some _, none => false
  | some (l, c), some (l', c') => l < l' || (l == l' && c ≤ c')

end Diagnostic

/-- Waiting diagnostics, first come first, with the number of errors among them. -/
structure Queue where
  config : QueueConfig
  entries : List Diagnostic
  errors : Nat
deriving DecidableEq, Repr

namespace Queue

/-- A queue in which nothing waits. -/
def new (config : QueueConfig) : Queue := ⟨config, [], 0⟩

def size (q : Queue) : Nat := q.entries.length

def isEmpty (q : Queue) : Bool := q.entries.isEmpty

def hasErrors (q : Queue) : Bool := 0 < q.errors

/-- Whether further errors are turned away. -/
def limitReached (q : Queue) : Bool :=
  0 < q.config.errorLimit && q.config.errorLimit ≤ q.errors

/-- Whether a diagnostic repeats one that is waiting. -/
def holds (q : Queue) (d : Diagnostic) : Bool :=
  q.entries.any d.repeats

/-- Whether a diagnostic is let in. -/
def admits (q : Queue) (d : Diagnostic) : Bool :=
  !(d.isError && q.limitReached) && !(q.config.deduplicate && q.holds d)

/-- Puts a diagnostic at the end if it is let in, and tells whether it was. -/
def add (q : Queue) (d : Diagnostic) : Bool × Queue :=
  if q.admits d then
    (true, { q with
      entries := q.entries ++ [d]
      errors := if d.isError then q.errors + 1 else q.errors })
  else (false, q)

/-- Hands out everything that waits, ordered by position; equal positions keep their order. -/
def flush (q : Queue) : List Diagnostic × Queue :=
  (q.entries.mergeSort fun d e => Diagnostic.positionLE d.position? e.position?,
    new q.config)

end Queue

end TypeStore
