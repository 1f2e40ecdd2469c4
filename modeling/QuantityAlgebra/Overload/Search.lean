import QuantityAlgebra.Derivation
import QuantityAlgebra.List.Distinct
import QuantityAlgebra.Overload.Policy

/-!
# Overloads of a derivation

For a derivation `r = a op b` the operation itself is an overload. Isolating `a` gives `r inv b ->
a` with the inverse operator. Isolating `b` gives `r inv a -> b` where the operator commutes; a
difference and a quotient keep `a` on the left, `a - r -> b` and `a / r -> b`.

An overload is dropped if it results in the constant, or if its operator does not make the kind of
its result out of the kinds of its operands: nothing is divided by a vector.
-/

namespace QuantityAlgebra

/-- An operand together with its kind (`Bound`). -/
structure BoundOperand where
  operand : OverloadOperand
  kind : Kind
  deriving DecidableEq, Inhabited

namespace BoundOperand

/-- What a side is bound to by the signature of a derivation. -/
def ofSide? (classifier : Classifier) (signature : Signature) : Side → Option BoundOperand
  | .one => some ⟨.dimensionless, .scalar⟩
  | .slot index =>
    signature[index]?.map fun q => ⟨.quantity q, .ofClassification (classifier q)⟩

/-- Whether an operand is a quantity of a module other than the target's (`outside`). -/
def isOutside (b : BoundOperand) (target : Quantity) : Bool :=
  b.operand.quantity?.any fun q => q.modulePath != target.modulePath

end BoundOperand

/-- The quantity a derivation for a target results in: of a group the member for its dimension
(`result_quantity`). -/
def resultQuantity (classifier : Classifier) (target : Quantity) (d : Derivation) : Quantity :=
  match classifier target, d.dimension with
  | .group members, some dimension => (members.get? dimension).getD target
  | _, _ => target

/-- The overload `lhs op rhs -> result`, if the result is a quantity of the kind that comes out
(`propose`). -/
def propose? (op : ArithmeticOp) (lhs rhs result : BoundOperand) : Option Overload :=
  match result.operand.quantity? with
  | none => none
  | some q =>
    if Kind.combine op.toBinary lhs.kind rhs.kind = result.kind then
      some ⟨q, op, lhs.operand, rhs.operand⟩
    else none

namespace OverloadPolicy

/-- Whether the policy isolates the left operand, in `search`. -/
def isolatesLeft (policy : OverloadPolicy) (lhs : BoundOperand) (target : Quantity) : Bool :=
  match policy with
  | .leftHandSide | .all => true
  | .suitable => lhs.isOutside target
  | .none | .rightHandSide => false

/-- Whether the policy isolates the right operand, in `search`. -/
def isolatesRight (policy : OverloadPolicy) (rhs : BoundOperand) (target : Quantity) : Bool :=
  match policy with
  | .rightHandSide | .all => true
  | .suitable => rhs.isOutside target
  | .none | .leftHandSide => false

end OverloadPolicy

/-- The overload that isolates the left operand of `result = lhs op rhs`, as `search` proposes
it. -/
def isolateLeft? (op : ArithmeticOp) (lhs rhs result : BoundOperand) : Option Overload :=
  propose? op.inverse result rhs lhs

/-- The overload that isolates the right operand of `result = lhs op rhs`, as `search` proposes
it. -/
def isolateRight? (op : ArithmeticOp) (lhs rhs result : BoundOperand) : Option Overload :=
  match op with
  | .add | .mul => propose? op.inverse result lhs rhs
  | .sub | .div => propose? op lhs result rhs

/-- The overloads a policy asks for, the operation itself first, none twice: what `search` collects
once it has the operation and its operands. -/
def proposals (policy : OverloadPolicy) (target : Quantity) (op : ArithmeticOp)
    (lhs rhs result : BoundOperand) : List Overload :=
  distinct <|
    (propose? op lhs rhs result).toList ++
      (if policy.isolatesLeft lhs target then (isolateLeft? op lhs rhs result).toList else []) ++
      (if policy.isolatesRight rhs target then (isolateRight? op lhs rhs result).toList else [])

/-- The overloads of a derivation for a target under a policy (`search`). -/
def Derivation.overloads (d : Derivation) (classifier : Classifier) (target : Quantity)
    (policy : OverloadPolicy) : Except PolicyError (List Overload) :=
  if policy = .none then .ok []
  else do
    let operation ← invertible d.expression d.signature.length
    match BoundOperand.ofSide? classifier d.signature operation.lhs,
      BoundOperand.ofSide? classifier d.signature operation.rhs with
    | some lhs, some rhs =>
      let result : BoundOperand := ⟨.quantity (resultQuantity classifier target d), d.kind⟩
      return proposals policy target operation.operator lhs rhs result
    | _, _ => throw (.notInvertible d.expression)

end QuantityAlgebra
