import QuantityAlgebra.Expr
import QuantityAlgebra.Quantity

/-!
# Overloads of arithmetic operators

An overload states one arithmetic operation between quantities and the quantity it results in,
`a / b -> r`. An operand may also be the constant, which has no dimension.
-/

namespace QuantityAlgebra

/-- The operators that can be overloaded and inverted (`ArithmeticOperator`). -/
inductive ArithmeticOp
  | add
  | sub
  | mul
  | div
  deriving DecidableEq, Inhabited

namespace ArithmeticOp

/-- The arithmetic operator among those of expressions; products of vectors are none
(`from_binary`). -/
def ofBinary? : BinaryOp → Option ArithmeticOp
  | .add => some .add
  | .sub => some .sub
  | .mul => some .mul
  | .div => some .div
  | .dot | .cross => none

/-- The operator as one of expressions (`as_binary`). -/
def toBinary : ArithmeticOp → BinaryOp
  | .add => .add
  | .sub => .sub
  | .mul => .mul
  | .div => .div

/-- The symbol the operator is written with. -/
def symbol (op : ArithmeticOp) : Char := op.toBinary.symbol

/-- The operator that undoes it (`inverse`). -/
def inverse : ArithmeticOp → ArithmeticOp
  | .add => .sub
  | .sub => .add
  | .mul => .div
  | .div => .mul

@[simp] theorem ofBinary?_toBinary (op : ArithmeticOp) : ofBinary? op.toBinary = some op := by
  cases op <;> rfl

end ArithmeticOp

/-- An operand of an overload (`OperatorOperand`). -/
inductive OverloadOperand
  | quantity (quantity : Quantity)
  /-- The constant `1`. -/
  | dimensionless
  deriving DecidableEq, Inhabited

namespace OverloadOperand

/-- The quantity an operand is, if it is one. -/
def quantity? : OverloadOperand → Option Quantity
  | .quantity q => some q
  | .dimensionless => none

/-- The text of an operand, as it is displayed. -/
def display : OverloadOperand → String
  | .quantity q => q.path
  | .dimensionless => "1"

end OverloadOperand

/-- One operation between quantities and what it results in (`OperatorDerivation`). -/
structure Overload where
  result : Quantity
  operator : ArithmeticOp
  lhs : OverloadOperand
  rhs : OverloadOperand
  deriving DecidableEq, Inhabited

namespace Overload

/-- The text of an overload as it is displayed, `lhs op rhs -> result`. -/
def display (o : Overload) : String :=
  o.lhs.display ++ " " ++ String.singleton o.operator.symbol ++ " " ++ o.rhs.display ++ " -> " ++
    o.result.path

end Overload

end QuantityAlgebra
