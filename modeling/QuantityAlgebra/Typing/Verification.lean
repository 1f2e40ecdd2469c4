import QuantityAlgebra.Typing.Dimensions

/-!
# Verification

Whether a tree over a table without open choices is consistent at every node. A sum needs one and
the same kind on both sides and, for vectors, one and the same dimension; a dot product needs one
and the same dimension, a cross product dimension three on both sides; a product or a quotient only
needs to have a kind.
-/

namespace QuantityAlgebra

namespace Expr

/-- Whether both sides have exactly one dimension, the same. A sum, a difference and a dot product
ask for it in `verify_node`. -/
def sameDimension (t : OperandTable) (lhs rhs : Expr) : Bool :=
  match (lhs.dimensions t).single?, (rhs.dimensions t).single? with
  | some l, some r => l == r
  | _, _ => false

/-- Whether an operation is consistent, given that its two sides are: the arms of `verify_node`. -/
def verifiesNode (t : OperandTable) (op : BinaryOp) (lhs rhs : Expr) : Bool :=
  match op with
  | .add | .sub =>
    match (binary op lhs rhs).kind t with
    | .scalar => true
    | .vector => sameDimension t lhs rhs
    | .invalid => false
  | .mul | .div => (binary op lhs rhs).kind t != .invalid
  | .dot => sameDimension t lhs rhs
  | .cross =>
    (lhs.dimensions t).single? == some crossDimension &&
      (rhs.dimensions t).single? == some crossDimension

/-- Whether every operation of a tree is consistent (`verify`, `verify_node`). -/
def verifies (t : OperandTable) : Expr → Bool
  | .slot _ => true
  | .one => true
  | .binary op lhs rhs => lhs.verifies t && rhs.verifies t && verifiesNode t op lhs rhs

end Expr

end QuantityAlgebra
