import SkipCode.Lower.Error

/-!
# Diagnostics

What a compilation reports: the errors of its units and warnings about the whole program.
-/

namespace SkipCode

open Source (Span)

inductive Report where
  | error (e : LowerError)
  /-- The program has more elements than the target takes. -/
  | overCeiling (count ceiling : Nat)
deriving BEq, Repr

structure Diagnostic where
  unit : String
  report : Report
deriving BEq, Repr

namespace Diagnostic

def isError (d : Diagnostic) : Bool :=
  match d.report with
  | .error _ => true
  | .overCeiling .. => false

/-- The kind of an error; a warning has none. -/
def kind? (d : Diagnostic) : Option String :=
  match d.report with
  | .error e => some e.kind
  | .overCeiling .. => none

def span? (d : Diagnostic) : Option Span :=
  match d.report with
  | .error e => e.span
  | .overCeiling .. => none

def message (d : Diagnostic) : String :=
  match d.report with
  | .error e => e.message
  | .overCeiling count ceiling =>
    s!"program uses {count} elements, over the ceiling of {ceiling}"

/-- The line of a diagnostic: its severity, its unit, its position if it has one, its message. -/
def toText (d : Diagnostic) : String :=
  let level := if d.isError then "error" else "warning"
  let place := match d.span? with
    | some span => span.toText ++ ": "
    | none => ""
  s!"{level}: [{d.unit}] {place}{d.message}"

end Diagnostic

end SkipCode
