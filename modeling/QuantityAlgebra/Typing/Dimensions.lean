import QuantityAlgebra.Typing.Kind

/-!
# Inferred dimensions

The dimensions an expression may result in, as far as the candidates left in a table tell. They mean
something for vectors only; a scalar has none. An intersection keeps the order of the left operand,
a union puts the left operand's dimensions first.
-/

namespace QuantityAlgebra

namespace Expr

/-- The dimensions a tree may have over a table (`infer_dimensions`). -/
def dimensions (t : OperandTable) : Expr → DimensionSet
  | .slot index => ((t.get? index).map Operand.dimensions).getD ∅
  | .one => ∅
  | .binary op lhs rhs =>
    match op with
    | .add | .sub => lhs.dimensions t ∩ rhs.dimensions t
    | .mul => lhs.dimensions t ∪ rhs.dimensions t
    | .div => lhs.dimensions t
    | .dot => ∅
    | .cross => (.single crossDimension ∩ lhs.dimensions t) ∩ rhs.dimensions t

end Expr

end QuantityAlgebra
