import QuantityAlgebra.Expr.Parse
import QuantityAlgebra.Quantity

/-!
# Diagnostics

A resolution that fails does so for one `Cause`, and reports it about the expression as declared.
The report goes to a `Sink`, which may suppress it by its code: the silent one (`SilentSink`) keeps
and answers nothing, a collecting one (`CollectingSink`) keeps exactly the diagnostics it answers.
What the sink makes of a report changes nothing about the failure.
-/

namespace QuantityAlgebra

/-- The categories of failure that sinks and configurations go by. -/
inductive DiagnosticCode
  | malformedExpression
  | incompatibleQuantities
  | unexpectedScalar
  | unexpectedVector
  | unexpectedDimension
  deriving DecidableEq, Inhabited

/-- Why a derivation cannot be resolved: the alternatives of a `ResolutionError`, less the
expression that each of them holds. -/
inductive Cause
  /-- The expression cannot be read (`MalformedExpression`). -/
  | malformed (source : ParseError)
  /-- The kinds do not fit, or no choice of dimensions does (`IncompatibleQuantities`). -/
  | incompatible
  /-- A scalar, where the target is a vector (`UnexpectedlyResultsInScalar`). -/
  | unexpectedScalar
  /-- A vector, where the target is a scalar (`UnexpectedlyResultsInVector`). -/
  | unexpectedVector
  /-- Vectors, but none of a dimension the target accepts (`UnexpectedDimension`). -/
  | unexpectedDimension (target : Quantity)
  deriving DecidableEq, Inhabited

/-- The category of a cause. -/
def Cause.code : Cause → DiagnosticCode
  | .malformed _ => .malformedExpression
  | .incompatible => .incompatibleQuantities
  | .unexpectedScalar => .unexpectedScalar
  | .unexpectedVector => .unexpectedVector
  | .unexpectedDimension _ => .unexpectedDimension

/-- A failed resolution: the expression as declared, and why. -/
structure ResolutionError where
  expression : String
  cause : Cause
  deriving DecidableEq, Inhabited

namespace ResolutionError

/-- The category of an error (`code`). -/
def code (e : ResolutionError) : DiagnosticCode := e.cause.code

/-- The wording of an error, as it is displayed. -/
def message (e : ResolutionError) : String :=
  match e.cause with
  | .malformed source =>
    "Malformed derivation expression '" ++ e.expression ++ "': " ++ source.message
  | .incompatible => "Derivation '" ++ e.expression ++ "' combines incompatible quantities"
  | .unexpectedScalar =>
    "Derivation '" ++ e.expression ++ "' results in a scalar, but the target is a vector"
  | .unexpectedVector =>
    "Derivation '" ++ e.expression ++ "' results in a vector, but the target is a scalar"
  | .unexpectedDimension target =>
    "Derivation '" ++ e.expression ++ "' never results in a dimension of '" ++ target.path ++ "'"

end ResolutionError

/-- The report of one failure. -/
structure Diagnostic where
  code : DiagnosticCode
  /-- The expression as declared. -/
  expression : String
  message : String
  deriving DecidableEq, Inhabited

/-- The report of an error (`from`). -/
def ResolutionError.diagnostic (e : ResolutionError) : Diagnostic :=
  ⟨e.code, e.expression, e.message⟩

/-- What failures are reported to: the two kinds of `DiagnosticsSink`. -/
inductive Sink
  /-- Keeps nothing (`SilentSink`). -/
  | silent
  /-- Keeps every diagnostic whose code is not suppressed, in the order of the reports
  (`CollectingSink`). -/
  | collecting (suppressed : List DiagnosticCode) (diagnostics : List Diagnostic)
  deriving DecidableEq

namespace Sink

/-- A collecting sink without diagnostics (`suppressing`; `new` if no code is). -/
def suppressing (codes : List DiagnosticCode) : Sink := .collecting codes []

/-- The collected diagnostics; nothing for a sink that keeps none. -/
def collected? : Sink → Option (List Diagnostic)
  | .silent => none
  | .collecting _ diagnostics => some diagnostics

/-- Hands an error to a sink: the diagnostic it answers, nothing if suppressed, and the sink after
(`report`). -/
def report (sink : Sink) (e : ResolutionError) : Option Diagnostic × Sink :=
  match sink with
  | .silent => (none, .silent)
  | .collecting suppressed diagnostics =>
    if e.code ∈ suppressed then (none, sink)
    else (some e.diagnostic, .collecting suppressed (diagnostics ++ [e.diagnostic]))

end Sink

end QuantityAlgebra
