import QuantityAlgebra.Definition
import QuantityAlgebra.Derivation.Materialize
import QuantityAlgebra.Derivation.Reordering
import QuantityAlgebra.Expansion
import QuantityAlgebra.Overload.Search
import QuantityAlgebra.Typing.Narrowing

/-!
# Resolution

A `Resolver` resolves a definition declared on a target quantity: it reads the expression,
classifies the signature, narrows and expands the group slots, and turns every consistent table into
a derivation. A `Resolution` holds the derivations, those that result in scalars and those that
result in vectors, the latter by dimension.

What the target expects is checked at the end. A scalar target takes scalars alone. A vector or a
group takes vectors alone, and needs at least one of a dimension it accepts; derivations of other
dimensions are kept along with it.

A resolution fails as a whole, for one cause. `Resolver.resolve` reports it to a sink, and
`Resolver.resolveWith` to anything that takes reports; the failure is that of `Resolver.resolution`,
which knows of neither.

Results: `Resolution.mem_derivations`, a derivation is listed among the scalars or for a dimension.
-/

namespace QuantityAlgebra

/-- Every resolved form of a definition (`DerivationResult`). -/
structure Resolution where
  definition : Definition
  /-- The derivations that result in scalars. -/
  scalar : List Derivation
  /-- The derivations that result in vectors, for each dimension. -/
  vector : DimensionMap (List Derivation)
  deriving DecidableEq

namespace Resolution

/-- All derivations: the scalars, then the vectors by ascending dimension (`iter`). -/
def derivations (r : Resolution) : List Derivation := r.scalar ++ r.vector.values.flatten

/-- The number of derivations (`len`). -/
def size (r : Resolution) : Nat := r.derivations.length

/-- Whether there is no derivation (`is_empty`). -/
def isEmpty (r : Resolution) : Bool := r.derivations.isEmpty

/-- For each derivation the orderings it is emitted for (`signatures`). -/
def reorderings (r : Resolution) : List (List Reordering) :=
  r.derivations.map fun d => d.reorderings r.definition.permutations

/-- A resolution without derivations. -/
def empty (definition : Definition) : Resolution := ⟨definition, [], ∅⟩

/-- Puts a derivation behind those of its kind and dimension: one step of `partition`. -/
def push (r : Resolution) (d : Derivation) : Resolution :=
  match d.kind, d.dimension with
  | .vector, some dimension =>
    { r with vector := r.vector.upsert dimension fun bucket => bucket.getD [] ++ [d] }
  | _, _ => { r with scalar := r.scalar ++ [d] }

/-- The resolution of a definition into derivations (`partition`). -/
def ofDerivations (definition : Definition) (derivations : List Derivation) : Resolution :=
  derivations.foldl push (empty definition)

theorem mem_derivations {r : Resolution} {d : Derivation} :
    d ∈ r.derivations ↔ d ∈ r.scalar ∨ ∃ bucket ∈ r.vector.values, d ∈ bucket := by
  simp [derivations]

end Resolution

/-- What a target expects that the derivations do not give (`validate_target`). -/
def targetFault? (target : Quantity) (classification : Classification) (kind : Kind)
    (derivations : List Derivation) : Option Cause :=
  match classification.vectorDimensions? with
  | none => if kind = .vector then some .unexpectedVector else none
  | some accepted =>
    if kind = .scalar then some .unexpectedScalar
    else if derivations.any fun d => d.dimension.any fun dimension => dimension ∈ accepted then none
    else some (.unexpectedDimension target)

/-- A failed resolution: the error, and the diagnostic the sink answered (`ResolutionFailure`). -/
structure Failure where
  error : ResolutionError
  diagnostic : Option Diagnostic
  deriving DecidableEq, Inhabited

/-- The wording of a failure is that of its error. -/
def Failure.message (failure : Failure) : String := failure.error.message

/-- Resolves definitions in one population of quantities. -/
structure Resolver where
  classifier : Classifier
  config : Config := {}

namespace Resolver

/-- The operands of a signature, narrowed by the tree: the table that `try_resolve` expands. -/
def operands (resolver : Resolver) (signature : Signature) (e : Expr) : OperandTable :=
  e.narrow (.classify resolver.classifier signature)

/-- The derivations of a tree over a signature, as `try_resolve` materializes them. -/
def derivations (resolver : Resolver) (signature : Signature) (e : Expr) : List Derivation :=
  let materializer : Materializer := { expr := e, config := resolver.config }
  (materializer.all ((resolver.operands signature e).expand e)).1

/-- The resolution of a definition on a target, or the cause of its failure (`try_resolve`). -/
def outcome (resolver : Resolver) (target : Quantity) (definition : Definition) :
    Except Cause Resolution :=
  match Expr.parse definition.expression.toList definition.signature.length with
  | .error source => .error (.malformed source)
  | .ok e =>
    let kind := e.kind (resolver.operands definition.signature e)
    if kind = .invalid then .error .incompatible
    else
      let derivations := resolver.derivations definition.signature e
      if derivations = [] then .error .incompatible
      else
        match targetFault? target (resolver.classifier target) kind derivations with
        | some cause => .error cause
        | none => .ok (.ofDerivations definition derivations)

/-- The resolution of a definition on a target, a failure with the expression as declared. -/
def resolution (resolver : Resolver) (target : Quantity) (definition : Definition) :
    Except ResolutionError Resolution :=
  (resolver.outcome target definition).mapError fun cause => ⟨definition.expression, cause⟩

/-- Resolves a definition on a target. A failure is handed to `report`, which answers a diagnostic
or nothing and leaves whatever it reports to in a new state (`resolve`, for any sink). -/
def resolveWith {State : Type} (resolver : Resolver)
    (report : State → ResolutionError → Option Diagnostic × State) (target : Quantity)
    (definition : Definition) (state : State) : Except Failure Resolution × State :=
  match resolver.resolution target definition with
  | .ok r => (.ok r, state)
  | .error e =>
    let (diagnostic, after) := report state e
    (.error ⟨e, diagnostic⟩, after)

/-- Resolves a definition on a target; a failure is reported to the sink (`resolve`). -/
def resolve (resolver : Resolver) (target : Quantity) (definition : Definition) (sink : Sink) :
    Except Failure Resolution × Sink :=
  resolver.resolveWith Sink.report target definition sink

/-- The overloads that the policy of a resolved definition asks for, none twice
(`operator_derivations`). -/
def overloads (resolver : Resolver) (target : Quantity) (r : Resolution) :
    Except PolicyError (List Overload) := do
  r.definition.validatePolicy
  let found ← r.derivations.mapM fun d =>
    d.overloads resolver.classifier target r.definition.policy
  return distinct found.flatten

end Resolver

end QuantityAlgebra
