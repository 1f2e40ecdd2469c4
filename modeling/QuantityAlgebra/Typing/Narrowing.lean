import QuantityAlgebra.Typing.Dimensions

/-!
# Narrowing candidates by the shape of a tree

Before groups are resolved, candidates that cannot be part of any consistent choice are taken away.
`narrow` goes through the tree once, from the root down. At a sum or a dot product both sides are
limited to the dimensions they share; `limit` passes a limit on to the slots that determine the
dimension of a subtree.

A limit passes through sums, products and the dividend of a quotient. It stops at a dot product,
whose operands do not show in its result. A cross product is limited only when dimension three is
excluded: then no candidate of its operands is of use, else verification judges it.
-/

namespace QuantityAlgebra

namespace Expr

/-- Limits the dimensions a tree may result in to `s` (`limit_result`). -/
def limit (s : DimensionSet) : Expr → OperandTable → OperandTable
  | .slot index, t => t.restrict index s
  | .one, t => t
  | .binary op lhs rhs, t =>
    match op with
    | .add | .sub | .mul => rhs.limit s (lhs.limit s t)
    | .div => lhs.limit s t
    | .dot => t
    | .cross => if crossDimension ∈ s then t else rhs.limit s (lhs.limit s t)

/-- Limits both sides of an operation whose operands have to agree to what they share: what
`reduce_choices` does at one operation. -/
def narrowNode (op : BinaryOp) (lhs rhs : Expr) (t : OperandTable) : OperandTable :=
  match op with
  | .add | .sub | .dot =>
    let common := lhs.dimensions t ∩ rhs.dimensions t
    rhs.limit common (lhs.limit common t)
  | .mul | .div | .cross => t

/-- Takes away candidates the tree excludes: at the root, then on the left, then on the right
(`reduce_choices`). -/
def narrow : Expr → OperandTable → OperandTable
  | .slot _, t => t
  | .one, t => t
  | .binary op lhs rhs, t => rhs.narrow (lhs.narrow (narrowNode op lhs rhs t))

end Expr

end QuantityAlgebra
