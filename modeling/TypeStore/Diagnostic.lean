import TypeStore.Location

/-!
# Diagnostics

A diagnostic is a report about the program being checked, or about the checker itself: a code, a
severity, a message, the locations it points at and further notes. `Diagnostic.text` is its
written form.
-/

namespace TypeStore

/-- What a diagnostic is about. -/
inductive ErrorCode where
  /-- Resolving a type took more steps than allowed. -/
  | resolutionLimit
  /-- An associated type was needed before it was known. -/
  | unknownAssociatedType
  /-- The checker broke one of its own rules. -/
  | brokenInvariant
  /-- The checker came to a case it does not handle. -/
  | unhandledCase
deriving DecidableEq, Repr

namespace ErrorCode

/-- Every code. -/
def all : List ErrorCode :=
  [resolutionLimit, unknownAssociatedType, brokenInvariant, unhandledCase]

/-- The code as it is written. The first digit tells type errors from internal ones. -/
def text : ErrorCode → String
  | resolutionLimit => "E2001"
  | unknownAssociatedType => "E2002"
  | brokenInvariant => "E9001"
  | unhandledCase => "E9002"

/-- The code with a given written form. -/
def ofText? (s : String) : Option ErrorCode :=
  all.find? fun code => code.text == s

/-- Whether the checker, and not the program, is at fault. -/
def isInternal : ErrorCode → Bool
  | brokenInvariant | unhandledCase => true
  | resolutionLimit | unknownAssociatedType => false

end ErrorCode

inductive Severity where
  | error
  | warning
  | note
deriving DecidableEq, Repr

namespace Severity

def text : Severity → String
  | error => "error"
  | warning => "warning"
  | note => "note"

/-- The severity with a given written form. -/
def ofText? (s : String) : Option Severity :=
  [error, warning, note].find? fun severity => severity.text == s

end Severity

/-- A location with a remark; primary labels say where the trouble is, the others add context. -/
structure Label where
  location : Location
  message : String
  isPrimary : Bool
deriving DecidableEq, Repr

namespace Label

/-- A label on a line of its own; only a primary one has an arrow. -/
def text (l : Label) : String :=
  "\n  " ++ (if l.isPrimary then "-->" else "   ") ++ " " ++ l.location.text ++ ": " ++ l.message

end Label

/-- One report. -/
structure Diagnostic where
  code : ErrorCode
  severity : Severity
  message : String
  node : Option NodeId
  labels : List Label
  notes : List String
deriving DecidableEq, Repr

namespace Diagnostic

/-- An error about a node, without labels and notes. -/
def error (code : ErrorCode) (node : NodeId) (message : String) : Diagnostic :=
  { code, severity := .error, message, node := some node, labels := [], notes := [] }

/-- Adds a primary label. -/
def pointingAt (d : Diagnostic) (location : Location) (message : String) : Diagnostic :=
  { d with labels := d.labels ++ [⟨location, message, true⟩] }

/-- Adds a note. -/
def withNote (d : Diagnostic) (note : String) : Diagnostic :=
  { d with notes := d.notes ++ [note] }

/-- The location of the first primary label. -/
def primaryLocation? (d : Diagnostic) : Option Location :=
  (d.labels.find? Label.isPrimary).map Label.location

def isError (d : Diagnostic) : Bool := d.severity == .error

def isInternal (d : Diagnostic) : Bool := d.code.isInternal

/-- The headline, then one line per label, then one line per note. -/
def text (d : Diagnostic) : String :=
  d.severity.text ++ " [" ++ d.code.text ++ "]: " ++ d.message
    ++ String.join (d.labels.map Label.text)
    ++ String.join (d.notes.map fun note => "\n  = note: " ++ note)

/-- Resolving the type of a node took more than `limit` steps. -/
def limitExceeded (node : NodeId) (location : Location) (limit : Nat) : Diagnostic :=
  (error .resolutionLimit node "type resolution exceeded recursion limit")
    |>.pointingAt location ("resolving the type of node " ++ node.text)
    |>.withNote ("gave up after " ++ toString limit ++ " steps; the type may refer to itself "
      ++ "through generic parameters or associated types")

/-- The checker itself went wrong while it looked at a node. -/
def internal (code : ErrorCode) (node : NodeId) (message : String) : Diagnostic :=
  (error code node ("internal compiler error: " ++ message))
    |>.withNote "this is a bug in the compiler, not in the program being compiled"

end Diagnostic

end TypeStore
