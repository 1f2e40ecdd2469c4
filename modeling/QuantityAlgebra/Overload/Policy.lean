import QuantityAlgebra.Definition
import QuantityAlgebra.Expr.Parse
import QuantityAlgebra.Overload

/-!
# Operations that can be inverted

Overloads are proposed only for an expression that is one arithmetic operation between two different
slots, or between the only slot and the constant. `invertible` finds that operation; a definition
with a policy other than `none` is valid if it has one.
-/

namespace QuantityAlgebra

/-- Why a definition cannot have overloads (`OperatorPolicyError`). -/
inductive PolicyError
  /-- The signature does not have one or two slots (`RequireOneOrTwoOperands`). -/
  | operandCount (operands : Nat)
  /-- The expression is not an operation that can be inverted (`IncompatibleExpression`). -/
  | notInvertible (expression : String)
  deriving DecidableEq, Inhabited

namespace PolicyError

/-- The wording of a policy error, as it is displayed. -/
def message : PolicyError → String
  | .operandCount operands =>
    "operator overloads require a derivation over one or two operands, found " ++ toString operands
  | .notInvertible expression =>
    "expression '" ++ expression ++ "' is not a single arithmetic operation that can be inverted"

end PolicyError

/-- One side of an operation that can be inverted. -/
inductive Side
  | slot (index : Nat)
  | one
  deriving DecidableEq, Inhabited

namespace Side

/-- The side a tree is; an operation is none (`side`). -/
def ofExpr? : Expr → Option Side
  | .slot index => some (.slot index)
  | .one => some .one
  | .binary .. => none

end Side

/-- An arithmetic operation between two sides (`Invertible`). -/
structure Operation where
  operator : ArithmeticOp
  lhs : Side
  rhs : Side
  deriving DecidableEq, Inhabited

namespace Operation

/-- The operation at the root of a tree, if both operands are sides. -/
def ofExpr? : Expr → Option Operation
  | .binary op lhs rhs => do
    return ⟨← ArithmeticOp.ofBinary? op, ← Side.ofExpr? lhs, ← Side.ofExpr? rhs⟩
  | _ => none

/-- Whether an operation uses each of `operands` slots once, a single slot against the constant: the
last check of `invertible`. -/
def coversOperands (operation : Operation) (operands : Nat) : Bool :=
  match operation.lhs, operation.rhs, operands with
  | .slot a, .slot b, 2 => a != b
  | .slot _, .one, 1 => true
  | .one, .slot _, 1 => true
  | _, _, _ => false

end Operation

/-- The one operation an expression over `operands` slots is (`invertible`). -/
def invertible (expression : String) (operands : Nat) : Except PolicyError Operation :=
  if operands = 0 ∨ 2 < operands then .error (.operandCount operands)
  else
    match Expr.parse expression.toList operands with
    | .error _ => .error (.notInvertible expression)
    | .ok e =>
      match Operation.ofExpr? e with
      | some operation =>
        if operation.coversOperands operands then .ok operation
        else .error (.notInvertible expression)
      | none => .error (.notInvertible expression)

/-- Whether a definition can have the overloads its policy asks for (`validate`). -/
def Definition.validatePolicy (definition : Definition) : Except PolicyError Unit :=
  match definition.policy with
  | .none => .ok ()
  | _ => (invertible definition.expression definition.signature.length).map fun _ => ()

end QuantityAlgebra
