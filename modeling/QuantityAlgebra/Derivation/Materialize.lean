import QuantityAlgebra.Config
import QuantityAlgebra.Derivation
import QuantityAlgebra.Typing.Dimensions

/-!
# From tables to derivations

A table in which no referenced group holds a choice is one derivation. A `Materializer` turns the
tables of one expression into derivations and remembers the concrete signatures it has met: a table
whose signature it met before yields nothing, nor does one that still holds a choice, and the latter
is not remembered.

Results:
* `step_unresolved`, `step_seen`, `step_fresh`: what a table yields in each of the three cases.
* `step_cases`: that there are no others.
* `all_append`: a run over two lists is a run over the first, then over the second.
-/

namespace QuantityAlgebra

namespace Expr

/-- The text of a tree with products of vectors as calls of helpers. The dot helper is named for the
one dimension of its left operand; while that is open, the product is written with its symbol
(`render`). -/
def render (config : Config) (t : OperandTable) : Expr → List Char
  | .binary op lhs rhs =>
    let left := lhs.render config t
    let right := rhs.render config t
    match op with
    | .dot =>
      match (lhs.dimensions t).single? with
      | some d => config.dotHelperFor d ++ '(' :: left ++ [',', ' '] ++ right ++ [')']
      | none => parenthesized .dot left right
    | .cross => config.crossHelper.toList ++ '(' :: left ++ [',', ' '] ++ right ++ [')']
    | op => parenthesized op left right
  | e => e.display

/-- The rendered text without the parentheses of its root operation; a call at the root has none
(`strip_outer`, for a rendered text). -/
def renderOuter (config : Config) (t : OperandTable) (e : Expr) : List Char :=
  match e with
  | .binary .dot _ _ | .binary .cross _ _ => e.render config t
  | .binary .. => dropParentheses (e.render config t)
  | _ => e.render config t

/-- The dimension a tree results in: of a vector with one possible dimension that one, as
`materialize` records it. -/
def resultDimension? (t : OperandTable) (e : Expr) : Option Dimension :=
  match e.kind t with
  | .vector => (e.dimensions t).single?
  | _ => none

/-- The derivation of a tree over a table, its slots bound to `signature`. -/
def derivation (config : Config) (t : OperandTable) (signature : Signature) (e : Expr) :
    Derivation where
  expression := String.ofList e.displayOuter
  rendered := String.ofList (e.renderOuter config t)
  signature := signature
  kind := e.kind t
  dimension := e.resultDimension? t

end Expr

/-- Turns the tables of one expression into derivations, each concrete signature once. -/
structure Materializer where
  expr : Expr
  config : Config
  /-- The concrete signatures met so far (`seen`), the last in front. -/
  seen : List Signature := []

namespace Materializer

/-- What a table yields, and the materializer after it (`materialize`). -/
def step (m : Materializer) (t : OperandTable) : Option Derivation × Materializer :=
  match t.concreteSignature? m.expr with
  | none => (none, m)
  | some signature =>
    if signature ∈ m.seen then (none, m)
    else (some (m.expr.derivation m.config t signature), { m with seen := signature :: m.seen })

/-- What tables yield, in their order, and the materializer after them (`materialize_all`). -/
def all (m : Materializer) : List OperandTable → List Derivation × Materializer
  | [] => ([], m)
  | t :: ts =>
    let (derivation, next) := m.step t
    let (derivations, last) := next.all ts
    (derivation.toList ++ derivations, last)

theorem step_unresolved {m : Materializer} {t : OperandTable}
    (h : t.concreteSignature? m.expr = none) : m.step t = (none, m) := by
  simp [step, h]

theorem step_seen {m : Materializer} {t : OperandTable} {signature : Signature}
    (h : t.concreteSignature? m.expr = some signature) (seen : signature ∈ m.seen) :
    m.step t = (none, m) := by
  simp [step, h, seen]

theorem step_fresh {m : Materializer} {t : OperandTable} {signature : Signature}
    (h : t.concreteSignature? m.expr = some signature) (fresh : signature ∉ m.seen) :
    m.step t =
      (some (m.expr.derivation m.config t signature), { m with seen := signature :: m.seen }) := by
  simp [step, h, fresh]

/-- A table is open, or it was met before, or it is derived and remembered. -/
theorem step_cases (m : Materializer) (t : OperandTable) :
    (t.concreteSignature? m.expr = none ∧ m.step t = (none, m)) ∨
      (∃ s ∈ m.seen, t.concreteSignature? m.expr = some s ∧ m.step t = (none, m)) ∨
      ∃ s ∉ m.seen, t.concreteSignature? m.expr = some s ∧
        m.step t = (some (m.expr.derivation m.config t s), { m with seen := s :: m.seen }) := by
  cases concrete : t.concreteSignature? m.expr with
  | none => exact .inl ⟨rfl, step_unresolved concrete⟩
  | some s =>
    by_cases seen : s ∈ m.seen
    · exact .inr (.inl ⟨s, seen, rfl, step_seen concrete seen⟩)
    · exact .inr (.inr ⟨s, seen, rfl, step_fresh concrete seen⟩)

theorem all_append (m : Materializer) (ts us : List OperandTable) :
    m.all (ts ++ us) =
      ((m.all ts).1 ++ ((m.all ts).2.all us).1, ((m.all ts).2.all us).2) := by
  induction ts generalizing m with
  | nil => rfl
  | cons t ts ih => simp [all, ih]

end Materializer

end QuantityAlgebra
