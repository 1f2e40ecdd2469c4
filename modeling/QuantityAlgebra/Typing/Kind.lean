import QuantityAlgebra.Operand.Table

/-!
# Kinds

The kind of an expression says whether it results in a scalar or a vector, or that no choice of
dimensions can make sense of it. A group is a vector whatever dimension it takes, so the kind is
known before any group is resolved.

Results: `kind_congr`, the kind of a tree goes by the kinds of the slots that it refers to.
-/

namespace QuantityAlgebra

/-- What an expression results in (`ResultKind`). -/
inductive Kind
  | scalar
  | vector
  | invalid
  deriving DecidableEq, Inhabited

namespace Kind

/-- The kind of an operation: sums need equal kinds, a product at most one vector, a quotient a
scalar divisor, dot and cross products two vectors (`combine_kinds`). -/
def combine : BinaryOp → Kind → Kind → Kind
  | .add, .scalar, .scalar | .sub, .scalar, .scalar => .scalar
  | .add, .vector, .vector | .sub, .vector, .vector => .vector
  | .mul, .scalar, .scalar => .scalar
  | .mul, .scalar, .vector | .mul, .vector, .scalar => .vector
  | .div, .scalar, .scalar => .scalar
  | .div, .vector, .scalar => .vector
  | .dot, .vector, .vector => .scalar
  | .cross, .vector, .vector => .vector
  | _, _, _ => .invalid

/-- The kind of a quantity so classified (`kind_of`). -/
def ofClassification : Classification → Kind
  | .scalar => .scalar
  | .fixedVector _ | .groupMember _ | .group _ => .vector

end Kind

/-- The kind of an operand (`leaf_kind`). -/
def Operand.kind : Operand → Kind
  | .scalar _ => .scalar
  | .vector .. | .group .. => .vector

namespace Expr

/-- The kind of a tree over a table; a slot beyond the table is invalid (`infer_kind`). -/
def kind (t : OperandTable) : Expr → Kind
  | .slot index => ((t.get? index).map Operand.kind).getD .invalid
  | .one => .scalar
  | .binary op lhs rhs => .combine op (lhs.kind t) (rhs.kind t)

/-- The kind of a tree depends on the kinds of the slots that it refers to. -/
theorem kind_congr {t u : OperandTable} {e : Expr}
    (same : ∀ slot, e.references slot = true →
      (t.get? slot).map Operand.kind = (u.get? slot).map Operand.kind) : e.kind t = e.kind u := by
  induction e with
  | slot index => rw [kind, kind, same index (by simp [references])]
  | one => rfl
  | binary op lhs rhs ihl ihr =>
    have left := ihl fun slot found => same slot (by simp [references, found])
    have right := ihr fun slot found => same slot (by simp [references, found])
    rw [kind, kind, left, right]

end Expr

end QuantityAlgebra
