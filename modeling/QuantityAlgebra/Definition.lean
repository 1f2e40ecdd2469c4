import QuantityAlgebra.Quantity

/-!
# Definitions

A derivation as it is declared: the text of an expression over the slots of a signature, which
overloads of operators to propose for it, and whether it is emitted for every order of its operands.
-/

namespace QuantityAlgebra

/-- Which operand of `r = a op b` gets an overload that isolates it (`OperatorImplementation`). -/
inductive OverloadPolicy
  /-- No overloads at all, not even the operation itself. -/
  | none
  | leftHandSide
  | rightHandSide
  | all
  /-- Every operand from a module other than the target's. -/
  | suitable
  deriving DecidableEq, Inhabited

/-- A derivation as declared (`DerivationDefinition`). -/
structure Definition where
  /-- The text of the expression. -/
  expression : String
  /-- The quantities its placeholders refer to. -/
  signature : Signature
  /-- Which overloads are proposed for it (`operator_implementation`). -/
  policy : OverloadPolicy := .none
  /-- Whether it is emitted for every order of its operands. -/
  permutations : Bool := false
  deriving DecidableEq, Inhabited

namespace Definition

/-- The definition with another overload policy (`with_operators`). -/
def withPolicy (definition : Definition) (policy : OverloadPolicy) : Definition :=
  { definition with policy := policy }

/-- The definition with permutations switched on or off (`with_permutations`). -/
def withPermutations (definition : Definition) (permutations : Bool) : Definition :=
  { definition with permutations := permutations }

end Definition

end QuantityAlgebra
