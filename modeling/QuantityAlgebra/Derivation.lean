import QuantityAlgebra.Quantity
import QuantityAlgebra.Typing.Kind

/-!
# Resolved derivations

A derivation is one consistent outcome: an expression over concrete quantities, with the kind and
the dimension it results in. Its `expression` is canonical and can be read again over its
`signature`; in its `rendered` text dot and cross products are calls of helpers.
-/

namespace QuantityAlgebra

/-- One consistent outcome of a resolution (`ResolvedDerivation`). -/
structure Derivation where
  /-- The canonical text, without outermost parentheses. -/
  expression : String
  /-- The same tree with products of vectors as calls of helpers. -/
  rendered : String
  /-- The concrete quantity of each slot. -/
  signature : Signature
  kind : Kind
  /-- The dimension it results in, of a vector. -/
  dimension : Option Dimension
  deriving DecidableEq, Inhabited

end QuantityAlgebra
